/- source: cibos-kernel/src/channel.rs
   digest: The registry of channel requests: who may decide a request, once, and on which terms. -/

import CibosPlatform.Kernel.Channel.Queue
import Mathlib.Data.List.Nodup
import Mathlib.Data.List.Perm.Subperm

/-! The requests made and decided are read off the calls and their answers; the pending map is what remains.
Both counters are words, which come round in a build without overflow checks. -/

namespace CibosPlatform.Kernel.Channel.Handshake

open Core Events MachineWord Maps Queue Shared.Ipc List Nat

structure PendingRequest where
  requester : BoundaryId
  target : BoundaryId
  terms : ChannelTerms

structure ChannelRegistry where
  nextId : Nat
  pending : SortedMap Nat PendingRequest
  nextRequest : Nat

variable (profile : BuildProfile)

namespace ChannelRegistry

def new : ChannelRegistry := ⟨1, .empty, 1⟩

variable (r : ChannelRegistry)

def create (terms : ChannelTerms) : Option (ChannelInner × ChannelRegistry) :=
  (addWord profile r.nextId 1).map fun next => (.new r.nextId terms, { r with nextId := next })

def request (requester : BoundaryId) (req : ChannelRequest) : Option (Nat × ChannelRegistry) :=
  (addWord profile r.nextRequest 1).map fun next =>
    (r.nextRequest, { r with
      nextRequest := next
      pending := r.pending.insert r.nextRequest ⟨requester, req.target, req.terms⟩ })

def poll (target : BoundaryId) : Option (Nat × BoundaryId × ChannelTerms) :=
  (r.pending.entries.find? fun e => e.2.target = target).map fun e =>
    (e.1, e.2.requester, e.2.terms)

variable (id : Nat)

def remove (target : BoundaryId) : Option (PendingRequest × ChannelRegistry) :=
  match r.pending.get? id with
  | some req =>
    if req.target = target then some (req, { r with pending := r.pending.erase id }) else none
  | none => none

def accept (target : BoundaryId) : Option (Option (ChannelInner × BoundaryId) × ChannelRegistry) :=
  match r.remove id target with
  | some (req, r') => (r'.create profile req.terms).map fun made =>
    (some (made.1, req.requester), made.2)
  | none => some (none, r)

def reject (target : BoundaryId) : Bool × ChannelRegistry :=
  match r.remove id target with
  | some (_, r') => (true, r')
  | none => (false, r)

def isPending : Bool := (r.pending.get? id).isSome

def Aimed (target : BoundaryId) (req : PendingRequest) : Prop :=
  r.pending.get? id = some req ∧ req.target = target

theorem remove_of_aimed {id : Nat} {target : BoundaryId} {r : ChannelRegistry}
    {req : PendingRequest}
    (h : r.Aimed id target req) : r.remove id target =
    some (req, { r with pending := r.pending.erase id }) := by
  rw [remove, h.1]
  exact if_pos h.2

theorem remove_of_not_aimed {id : Nat} {target : BoundaryId} {r : ChannelRegistry}
    (h : ∀ req, ¬ r.Aimed id target req) : r.remove id target = none := by
  rw [remove]
  split
  · rename_i req hreq
    exact if_neg fun htarget => h req ⟨hreq, htarget⟩
  · rfl

end ChannelRegistry

open ChannelRegistry

inductive Op where
  | request (requester : BoundaryId) (req : ChannelRequest)
  | poll (target : BoundaryId)
  | accept (id : Nat) (target : BoundaryId)
  | reject (id : Nat) (target : BoundaryId)
  | isPending (id : Nat)

inductive Reply where
  | requested (id : Nat)
  | polled (found : Option (Nat × BoundaryId × ChannelTerms))
  | accepted (made : Option (ChannelInner × BoundaryId))
  | rejected (done : Bool)
  | pending (waiting : Bool)

def step (op : Op) (r : ChannelRegistry) : Option (Reply × ChannelRegistry) :=
  match op with
  | .request requester req => (r.request profile requester req).map fun x => (.requested x.1, x.2)
  | .poll target => some (.polled (r.poll target), r)
  | .accept id target => (r.accept profile id target).map fun x => (.accepted x.1, x.2)
  | .reject id target => some (.rejected (r.reject id target).1, (r.reject id target).2)
  | .isPending id => some (.pending (r.isPending id), r)

inductive Stepped (profile : BuildProfile) (r : ChannelRegistry) : Op → Reply → ChannelRegistry →
    Prop
  | request {requester : BoundaryId} {req : ChannelRequest} {next : Nat}
      (count : addWord profile r.nextRequest 1 = some next) :
      Stepped profile r (.request requester req) (.requested r.nextRequest)
        ⟨r.nextId, r.pending.insert r.nextRequest ⟨requester, req.target, req.terms⟩, next⟩
  | poll {target : BoundaryId} : Stepped profile r (.poll target) (.polled (r.poll target)) r
  | accept {id : Nat} {target : BoundaryId} {req : PendingRequest} {next : Nat}
      (aimed : r.Aimed id target req) (count : addWord profile r.nextId 1 = some next) :
      Stepped profile r (.accept id target)
        (.accepted (some (.new r.nextId req.terms, req.requester)))
        ⟨next, r.pending.erase id, r.nextRequest⟩
  | acceptNone {id : Nat} {target : BoundaryId} (absent : ∀ req, ¬ r.Aimed id target req) :
      Stepped profile r (.accept id target) (.accepted none) r
  | reject {id : Nat} {target : BoundaryId} {req : PendingRequest} (aimed : r.Aimed id target req) :
      Stepped profile r (.reject id target)
        (.rejected true) ⟨r.nextId, r.pending.erase id, r.nextRequest⟩
  | rejectNone {id : Nat} {target : BoundaryId} (absent : ∀ req, ¬ r.Aimed id target req) :
      Stepped profile r (.reject id target) (.rejected false) r
  | isPending {id : Nat} : Stepped profile r (.isPending id) (.pending (r.isPending id)) r

theorem stepped_of_step {profile : BuildProfile} {r r' : ChannelRegistry} {op : Op} {reply : Reply}
    (h : step profile op r = some (reply, r')) : Stepped profile r op reply r' := by
  cases op with
  | request requester req =>
    rw [step, request, Option.map_map] at h
    obtain ⟨next, hnext, hout⟩ := Option.map_eq_some_iff.mp h
    cases hout
    exact .request hnext
  | poll target =>
    cases h
    exact .poll
  | accept id target =>
    by_cases haimed : ∃ req, r.Aimed id target req
    · obtain ⟨req, haimed⟩ := haimed
      rw [step, accept, remove_of_aimed haimed] at h
      simp only [create, Option.map_map] at h
      obtain ⟨next, hnext, hout⟩ := Option.map_eq_some_iff.mp h
      cases hout
      exact .accept haimed hnext
    · have hnone := not_exists.mp haimed
      rw [step, accept, remove_of_not_aimed hnone] at h
      cases h
      exact .acceptNone hnone
  | reject id target =>
    rw [step, reject] at h
    by_cases haimed : ∃ req, r.Aimed id target req
    · obtain ⟨req, haimed⟩ := haimed
      rw [remove_of_aimed haimed] at h
      cases h
      exact .reject haimed
    · have hnone := not_exists.mp haimed
      rw [remove_of_not_aimed hnone] at h
      cases h
      exact .rejectNone hnone
  | isPending id =>
    cases h
    exact .isPending

section

variable (events : List (Op × Reply))

def requests : List (Nat × PendingRequest) := events.filterMap fun
  | (.request requester req, .requested id) => some (id, ⟨requester, req.target, req.terms⟩)
  | _ => none

def decisions : List (Nat × BoundaryId) := events.filterMap fun
  | (.accept id target, .accepted (some _)) => some (id, target)
  | (.reject id target, .rejected true) => some (id, target)
  | _ => none

def channels : List ChannelInner := events.filterMap fun
  | (_, .accepted (some (c, _))) => some c
  | _ => none

def undecided : List (Nat × PendingRequest) :=
  (requests events).filter fun e => e.1 ∉ (decisions events).map Prod.fst

/-- What a call may answer after the calls `pre`. -/
def Answers (pre : List (Op × Reply)) : Op → Reply → Prop
  | .request _ _, .requested id => id ∉ (requests pre).map Prod.fst
  | .poll target, .polled found =>
    found = ((undecided pre).find? fun e => e.2.target = target).map
      fun e => (e.1, e.2.requester, e.2.terms)
  | .accept id target, .accepted (some (c, requester)) =>
    ∃ req, (id, req) ∈ undecided pre ∧ req.target = target ∧ req.requester = requester ∧
      c.capacity = req.terms.bufferCapacity ∧ c.maxMessageBytes = req.terms.maxMessageBytes
  | .accept id target, .accepted none => ∀ req, (id, req) ∈ undecided pre → req.target ≠ target
  | .reject id target, .rejected done =>
    done = true ↔ ∃ req, (id, req) ∈ undecided pre ∧ req.target = target
  | .isPending id, .pending waiting => waiting = true ↔ ∃ req, (id, req) ∈ undecided pre
  | _, _ => False

variable (first second : List (Op × Reply))

theorem requests_append : requests (first ++ second) = requests first ++ requests second :=
  filterMap_append

theorem decisions_append : decisions (first ++ second) = decisions first ++ decisions second :=
  filterMap_append

theorem channels_append : channels (first ++ second) = channels first ++ channels second :=
  filterMap_append

end

structure Tracks (events : List (Op × Reply)) (r : ChannelRegistry) : Prop where
  nextRequest : r.nextRequest = (1 + (requests events).length) % wordBound
  nextId : r.nextId = (1 + (channels events).length) % wordBound
  requestIds : (requests events).map Prod.fst = List.range' 1 (requests events).length
  channelIds : (channels events).map ChannelInner.id = List.range' 1 (channels events).length
  once : ((decisions events).map Prod.fst).Nodup
  made : (decisions events).map Prod.fst ⊆ (requests events).map Prod.fst
  fewer : (channels events).length ≤ (decisions events).length
  pending : r.pending.entries = undecided events

section

variable {profile : BuildProfile} {r r' : ChannelRegistry} {events : List (Op × Reply)}

variable {id : Nat} {req : PendingRequest} {target : BoundaryId} {op : Op} {reply : Reply}

theorem Tracks.get?_iff (h : Tracks events r) :
    r.pending.get? id = some req ↔ (id, req) ∈ undecided events := by
  rw [← SortedMap.mem_entries, h.pending]

theorem Tracks.aimed_iff (h : Tracks events r) :
    r.Aimed id target req ↔ (id, req) ∈ undecided events ∧ req.target = target := by
  rw [ChannelRegistry.Aimed, h.get?_iff]

private theorem tracks_new : Tracks [] .new :=
  ⟨rfl, rfl, rfl, rfl, nodup_nil, List.Subset.refl _, le_rfl, rfl⟩

variable (h : Tracks events r)

include h

private theorem Tracks.unchanged (noRequest : requests [(op, reply)] = [])
    (noDecision : decisions [(op, reply)] = []) (noChannel : channels [(op, reply)] = []) :
    Tracks (events ++ [(op, reply)]) r := by
  have hrequests : requests (events ++ [(op, reply)]) = requests events := by
    rw [requests_append, noRequest, append_nil]
  have hdecisions : decisions (events ++ [(op, reply)]) = decisions events := by
    rw [decisions_append, noDecision, append_nil]
  have hchannels : channels (events ++ [(op, reply)]) = channels events := by
    rw [channels_append, noChannel, append_nil]
  have hundecided : undecided (events ++ [(op, reply)]) = undecided events := by
    rw [undecided, hrequests, hdecisions, undecided]
  obtain ⟨h1, h2, h3, h4, h5, h6, h7, h8⟩ := h
  constructor
  · rwa [hrequests]
  · rwa [hchannels]
  · rwa [hrequests]
  · rwa [hchannels]
  · rwa [hdecisions]
  · rwa [hdecisions, hrequests]
  · rwa [hchannels, hdecisions]
  · rwa [hundecided]

private theorem Tracks.nextRequest_of_lt (few : (requests events).length + 1 < wordBound) :
    r.nextRequest = 1 + (requests events).length := by
  rw [h.nextRequest, mod_eq_of_lt]
  omega

private theorem Tracks.channels_lt (aimed : r.Aimed id target req) :
    (channels events).length < (requests events).length := by
  obtain ⟨hasked, hfree⟩ := mem_filter.mp ((h.aimed_iff.mp aimed).1)
  have hnodup := nodup_cons.mpr ⟨of_decide_eq_true hfree, h.once⟩
  have hsubset := cons_subset.mpr ⟨mem_map_of_mem hasked, h.made⟩
  have hlength := (hnodup.subperm hsubset).length_le
  rw [length_cons, length_map, length_map] at hlength
  exact lt_of_le_of_lt h.fewer hlength

private theorem Tracks.request {requester : BoundaryId} {req : ChannelRequest} {next : Nat}
    (few : (requests events).length + 1 < wordBound)
    (count : addWord profile r.nextRequest 1 = some next) :
    Tracks (events ++ [(.request requester req, .requested r.nextRequest)])
      ⟨r.nextId, r.pending.insert r.nextRequest ⟨requester, req.target, req.terms⟩, next⟩ := by
  have hid := h.nextRequest_of_lt few
  have hrequests : requests (events ++ [(.request requester req, .requested r.nextRequest)]) =
      requests events ++ [(r.nextRequest, ⟨requester, req.target, req.terms⟩)] :=
        requests_append _ _
  have hdecisions : decisions (events ++ [(.request requester req, .requested r.nextRequest)]) =
      decisions events := by
    rw [decisions_append]
    exact append_nil _
  have hchannels : channels (events ++ [(.request requester req, .requested r.nextRequest)]) =
      channels events := by
    rw [channels_append]
    exact append_nil _
  have hbelow : ∀ id ∈ (requests events).map Prod.fst, id < r.nextRequest := by
    intro id hmem
    rw [h.requestIds, mem_range'_1] at hmem
    rw [hid]
    exact hmem.2
  constructor
  · rw [hrequests, length_append, length_singleton, addWord_eq count, hid, add_assoc]
  · rw [hchannels]
    exact h.nextId
  · rw [hrequests, map_append, length_append, length_singleton, h.requestIds,
      range'_concat, map_singleton, hid, one_mul]
  · rw [hchannels]
    exact h.channelIds
  · rw [hdecisions]
    exact h.once
  · rw [hdecisions, hrequests, map_append]
    exact fun id hmem => mem_append_left _ (h.made hmem)
  · rw [hchannels, hdecisions]
    exact h.fewer
  · have hundecided : r.nextRequest ∉ (decisions events).map Prod.fst :=
      fun hmem => lt_irrefl _ (hbelow _ (h.made hmem))
    rw [SortedMap.entries_insert_last, h.pending, undecided, undecided, hrequests, hdecisions,
      filter_append, filter_singleton, decide_eq_true hundecided]
    · rfl
    · intro e hmem
      rw [h.pending] at hmem
      exact hbelow e.1 (mem_map_of_mem (mem_of_mem_filter hmem))

omit h

private theorem undecided_decided (noRequest : requests [(op, reply)] = [])
    (decides : decisions [(op, reply)] = [(id, target)]) :
    undecided (events ++ [(op, reply)]) = (undecided events).filter fun e => e.1 ≠ id := by
  rw [undecided, requests_append, decisions_append, noRequest, decides, append_nil, undecided,
    filter_filter]
  refine filter_congr fun e _ => ?_
  simp only [map_append, map_singleton, mem_append, mem_singleton, not_or, Bool.decide_and]
  rw [Bool.and_comm]

private theorem Tracks.decide {next : Nat} (h : Tracks events r) (aimed : r.Aimed id target req)
    (noRequest : requests [(op, reply)] = []) (decides : decisions [(op, reply)] = [(id, target)])
    (nextId : next = (1 + (channels (events ++ [(op, reply)])).length) % wordBound)
    (channelIds : (channels (events ++ [(op, reply)])).map ChannelInner.id =
      range' 1 (channels (events ++ [(op, reply)])).length)
    (one : (channels [(op, reply)]).length ≤ 1) :
    Tracks (events ++ [(op, reply)]) ⟨next, r.pending.erase id, r.nextRequest⟩ := by
  have hrequests : requests (events ++ [(op, reply)]) = requests events := by
    rw [requests_append, noRequest, append_nil]
  have hdecisions : decisions (events ++ [(op, reply)]) = decisions events ++ [(id, target)] := by
    rw [decisions_append, decides]
  obtain ⟨hasked, hfree⟩ := mem_filter.mp ((h.aimed_iff.mp aimed).1)
  constructor
  · rw [hrequests]
    exact h.nextRequest
  · exact nextId
  · rw [hrequests]
    exact h.requestIds
  · exact channelIds
  · rw [hdecisions, map_append, map_singleton]
    exact List.Nodup.append h.once (nodup_singleton id) (by simpa using hfree)
  · rw [hdecisions, hrequests, map_append, append_subset]
    exact ⟨h.made, cons_subset.mpr ⟨mem_map_of_mem hasked, nil_subset _⟩⟩
  · rw [hdecisions, channels_append, length_append, length_append]
    exact Nat.add_le_add h.fewer one
  · change r.pending.entries.filter _ = _
    rw [h.pending, undecided_decided noRequest decides]

variable (h : Tracks events r) (few : (requests (events ++ [(op, reply)])).length < wordBound)
  (stepped : Stepped profile r op reply r')

include h few stepped

theorem Tracks.step : Tracks (events ++ [(op, reply)]) r' := by
  cases stepped with
  | request count =>
    rw [requests_append, length_append] at few
    exact h.request few count
  | poll | acceptNone | rejectNone | isPending => exact h.unchanged rfl rfl rfl
  | @accept id target req next aimed count =>
    rw [requests_append, length_append] at few
    have hid : r.nextId = 1 + (channels events).length := by
      rw [h.nextId, mod_eq_of_lt]
      have hlt := h.channels_lt aimed
      omega
    have hchannels := channels_append events
      [(.accept id target, .accepted (some (.new r.nextId req.terms, req.requester)))]
    refine h.decide aimed rfl rfl ?_ ?_ (le_refl 1)
    · rw [hchannels, length_append, addWord_eq count, hid, add_assoc]
      rfl
    · rw [hchannels, map_append, length_append, h.channelIds]
      change _ ++ [r.nextId] = range' 1 (_ + 1)
      rw [range'_concat, hid, one_mul]
  | reject aimed =>
    have hchannels : ∀ id target, channels (events ++ [(.reject id target, .rejected true)]) =
      channels events := by
      intro id target
      rw [channels_append]
      exact append_nil _
    refine h.decide aimed rfl rfl ?_ ?_ (zero_le 1)
    · rw [hchannels]
      exact h.nextId
    · rw [hchannels]
      exact h.channelIds

theorem Tracks.answers : Answers events op reply := by
  cases stepped with
  | request count =>
    rw [requests_append, length_append] at few
    change r.nextRequest ∉ _
    rw [h.requestIds, h.nextRequest_of_lt few, mem_range'_1]
    exact fun hmem => lt_irrefl _ hmem.2
  | @poll target =>
    change r.poll target = _
    rw [poll, h.pending]
  | accept aimed =>
    obtain ⟨hmem, htarget⟩ := h.aimed_iff.mp aimed
    exact ⟨_, hmem, htarget, rfl, rfl, rfl⟩
  | acceptNone absent => exact fun req hmem htarget => absent req (h.aimed_iff.mpr ⟨hmem, htarget⟩)
  | reject aimed => exact ⟨fun _ => ⟨_, h.aimed_iff.mp aimed⟩, fun _ => rfl⟩
  | rejectNone absent =>
    refine ⟨nofun, ?_⟩
    rintro ⟨req, haimed⟩
    exact absurd (h.aimed_iff.mpr haimed) (absent req)
  | @isPending id =>
    change (r.pending.get? id).isSome = true ↔ _
    rw [Option.isSome_iff_exists]
    exact exists_congr fun req => h.get?_iff

omit h few stepped

private theorem requests_length_lt_dev (h : Run (step .dev) .new events r) :
    r.nextRequest = 1 + (requests events).length ∧ 1 + (requests events).length < wordBound := by
  induction h with
  | start => exact ⟨rfl, by decide⟩
  | @next events r r' op reply _ taken ih =>
    rw [requests_append, length_append]
    cases stepped_of_step taken with
    | @request requester req next count =>
      obtain ⟨rfl, hlt⟩ := addWord_dev count
      rw [ih.1] at hlt ⊢
      exact ⟨rfl, hlt⟩
    | poll | accept | acceptNone | reject | rejectNone | isPending => exact ih

theorem tracks_of_run (h : Run (step profile) .new events r)
    (few : (requests events).length < wordBound) :
    Tracks events r ∧ Always Answers events := by
  induction h with
  | start => exact ⟨tracks_new, always_nil _⟩
  | @next events r r' op reply _ taken ih =>
    have hfew : (requests events).length < wordBound := by
      rw [requests_append, length_append] at few
      exact lt_of_le_of_lt (le_add_right _ _) few
    obtain ⟨htracks, hanswers⟩ := ih hfew
    have hstepped := stepped_of_step taken
    exact ⟨htracks.step few hstepped, always_snoc.mpr ⟨hanswers, htracks.answers few hstepped⟩⟩

/-- Until the request counter comes round: requests and channels have ids of their own, a request is
decided once at most and by its target, and every call answers as the undecided requests say. -/
theorem handshake_decisions (profile : BuildProfile) (h : Run (step profile) .new events r)
    (few : profile = .release → (requests events).length < wordBound) :
    ((requests events).map Prod.fst).Nodup ∧ ((channels events).map ChannelInner.id).Nodup ∧
      ((decisions events).map Prod.fst).Nodup ∧ Always Answers events := by
  have hfew : (requests events).length < wordBound := by
    cases profile with
    | dev =>
      have hlt := (requests_length_lt_dev h).2
      omega
    | release => exact few rfl
  obtain ⟨htracks, hanswers⟩ := tracks_of_run h hfew
  refine ⟨?_, ?_, htracks.once, hanswers⟩
  · rw [htracks.requestIds]
    exact nodup_range'
  · rw [htracks.channelIds]
    exact nodup_range'

/-- Two requests, of which the second is accepted and the first cannot be rejected by a stranger. -/
theorem handshake_decisions_two_requests : ∃ events r, Run (step .release) .new events r ∧
    decisions events = [(2, 3)] ∧ (requests events).length = 2 ∧
    ((requests events).map Prod.fst).Nodup ∧ ((channels events).map ChannelInner.id).Nodup ∧
    ((decisions events).map Prod.fst).Nodup ∧ Always Answers events := by
  refine ⟨[(.request 1 ⟨2, ⟨⟨[], by decide⟩, .bidirectional, 8, 4⟩⟩, .requested 1),
      (.request 1 ⟨3, ⟨⟨[], by decide⟩, .bidirectional, 8, 2⟩⟩, .requested 2),
      (.accept 2 3, .accepted (some (.new 1 ⟨⟨[], by decide⟩, .bidirectional, 8, 2⟩, 1))),
      (.reject 1 3, .rejected false), (.isPending 1, .pending true)], ?_⟩
  exact exists_run_eval ⟨_, rfl, fun hrun =>
    ⟨rfl, rfl, handshake_decisions .release hrun fun _ => by decide⟩⟩

private theorem run_rejected (requester : BoundaryId) (req : ChannelRequest)
    (h : Run (step .release) .new events r) (nothing : r.pending = .empty) :
    ∃ r', Run (step .release) .new
        ((events ++ [(.request requester req, .requested r.nextRequest)]) ++
          [(.reject r.nextRequest req.target, .rejected true)]) r' ∧
      r'.pending = .empty ∧ r'.nextRequest = (r.nextRequest + 1) % wordBound := by
  let waiting : ChannelRegistry := ⟨r.nextId,
    SortedMap.empty.insert r.nextRequest ⟨requester, req.target, req.terms⟩,
    (r.nextRequest + 1) % wordBound⟩
  have hrequest : step .release (.request requester req) r =
      some (.requested r.nextRequest, waiting) := by
    rw [step, request, addWord_release, nothing]
    rfl
  have haimed : waiting.Aimed r.nextRequest req.target ⟨requester, req.target, req.terms⟩ :=
    ⟨by rw [SortedMap.get?_insert, if_pos rfl], rfl⟩
  have hreject : step .release (.reject r.nextRequest req.target) waiting =
      some (.rejected true, { waiting with pending := waiting.pending.erase r.nextRequest }) := by
    rw [step, reject, remove_of_aimed haimed]
  refine ⟨_, (h.next hrequest).next hreject, ?_, rfl⟩
  -- the map held the request that is taken out, and nothing else
  refine (SortedMap.mk.injEq ..).mpr ?_
  change filter (fun e => decide (e.1 ≠ r.nextRequest)) [(r.nextRequest, _)] = []
  rw [filter_singleton, decide_eq_false (not_not_intro rfl)]
  rfl

private theorem exists_run_rejected (req : ChannelRequest) (n : Nat) :
    ∃ events r, Run (step .release) .new events r ∧
      events.map Prod.fst = (range n).flatMap (fun i =>
        [.request 1 req, .reject ((1 + i) % wordBound) req.target]) ∧
      (requests events).map Prod.fst = (range n).map (fun i => (1 + i) % wordBound) ∧
      r.pending = .empty ∧ r.nextRequest = (1 + n) % wordBound := by
  induction n with
  | zero => exact ⟨[], .new, .start, rfl, rfl, rfl, rfl⟩
  | succ n ih =>
    obtain ⟨events, r, hrun, hcalls, hids, hpending, hnext⟩ := ih
    obtain ⟨r', hrun', hpending', hnext'⟩ := run_rejected 1 req hrun hpending
    refine ⟨_, r', hrun', ?_, ?_, hpending', ?_⟩
    · rw [append_assoc, map_append, hcalls, range_succ, flatMap_append, hnext]
      rfl
    · rw [append_assoc, requests_append, map_append, hids, range_succ, map_append, hnext]
      rfl
    · rw [hnext', hnext, mod_add_mod, add_assoc]

/-- Without overflow checks the first and the last of `2 ^ 64 + 1` requests, each turned down before
the next, have the same id. -/
theorem request_ids_come_round : ∃ events r, Run (step .release) .new events r ∧
    events.map Prod.fst = (List.range (wordBound + 1)).flatMap (fun i =>
      [.request 1 ⟨2, ⟨⟨[], by decide⟩, .bidirectional, 8, 4⟩⟩, .reject ((1 + i) % wordBound) 2]) ∧
    r.pending = .empty ∧ ¬ ((requests events).map Prod.fst).Nodup := by
  obtain ⟨events, r, hrun, hcalls, hids, hpending, -⟩ :=
    exists_run_rejected ⟨2, ⟨⟨[], by decide⟩, .bidirectional, 8, 4⟩⟩ (wordBound + 1)
  refine ⟨events, r, hrun, hcalls, hpending, ?_⟩
  rw [hids]
  intro hnodup
  have hsame := inj_on_of_nodup_map hnodup (mem_range.mpr (succ_pos wordBound))
    (mem_range.mpr (lt_succ_self wordBound)) (by rw [add_mod_right])
  cases hsame

end

end CibosPlatform.Kernel.Channel.Handshake

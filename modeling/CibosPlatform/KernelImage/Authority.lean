/- source: kernel-image/src/boot.rs
   digest: By what right a boundary holds a handle, over whole histories of the table. -/

import CibosPlatform.KernelImage.Holders

namespace CibosPlatform.KernelImage.Authority

open Core Events MachineWord Maps List Function
open Kernel.Channel.Handshake (ChannelRegistry PendingRequest)
open Kernel.Channel.Sharing
open Kernel.Gate.Registry (BoundGate GateId PendingConnect)
open Holders Table Shared.Ipc ChannelHandleTable

abbrev Event := Call × Reply

variable {K : Type}

section

variable [KernelInterface K]

inductive Entitled (profile : BuildProfile) (kernel : K) (events : List Event) (b : BoundaryId)
    (ch : ChannelRef) : Prop
  | opened {pre post : List Event} {t : ChannelHandleTable K}
      {capacity maxMessageBytes handle : Nat}
      (split : events = pre ++ (.openChannel b capacity maxMessageBytes,
        .number (.ok handle)) :: post)
      (before : Run (step profile) (.new kernel) pre t) (made : ch = t.channels.fresh)
  | requester {pre post : List Event} {t : ChannelHandleTable K} {target : BoundaryId}
      {id handle : Nat}
      {terms : ChannelTerms}
      (split : events = pre ++ (.acceptChannel target id, .number (.ok handle)) :: post)
      (before : Run (step profile) (.new kernel) pre t) (made : ch = t.channels.fresh)
      (asked : (.requestChannel b target terms, .number (.ok id)) ∈ pre)
      (pending : t.registry.pending.get? id = some ⟨b, target, terms⟩)
  | target {pre post : List Event} {t : ChannelHandleTable K} {requester : BoundaryId}
      {id handle : Nat}
      {terms : ChannelTerms}
      (split : events = pre ++ (.acceptChannel b id, .number (.ok handle)) :: post)
      (before : Run (step profile) (.new kernel) pre t) (made : ch = t.channels.fresh)
      (asked : (.requestChannel requester b terms, .number (.ok id)) ∈ pre)
      (pending : t.registry.pending.get? id = some ⟨requester, b, terms⟩)
  | connector {pre post : List Event} {t : ChannelHandleTable K} {gate : GateId} {handle : Nat}
      (split : events = pre ++ (.gateConnect b gate, .number (.ok handle)) :: post)
      (before : Run (step profile) (.new kernel) pre t) (made : ch = t.channels.fresh)
  | owner {pre post : List Event} {t : ChannelHandleTable K} {gate : GateId} {handle : Nat}
      {p : PendingConnect} {queue : List PendingConnect}
      (split : events = pre ++ (.gateAccept b gate, .number (.ok handle)) :: post)
      (before : Run (step profile) (.new kernel) pre t)
      (bound : (.gateBind b gate, .number (.ok gate)) ∈ pre)
      (queued : t.gates.bound.get? gate = some ⟨b, p :: queue⟩) (link : ch = p.listenerLink)

def Collected (id : Nat) (e : Event) : Prop :=
  ∃ b handle, e = (.pollChannelOutcome b id, .number (.ok handle))

/-- The request of `b` was accepted, `handle` is the handle that the accept made for `b`, and nobody has
collected the outcome since. -/
def Outcome (profile : BuildProfile) (kernel : K) (events : List Event) (id : Nat) (b : BoundaryId)
    (handle : Nat) : Prop :=
  ∃ before target handle' mid t1 t2 terms,
    Since (Collected id) events before (.acceptChannel target id, .number (.ok handle')) mid ∧
    (.requestChannel b target terms, .number (.ok id)) ∈ before ∧
    Run (step profile) (.new kernel) before t1 ∧
    step profile (.acceptChannel target id) t1 = some (.number (.ok handle'), t2) ∧
    t2.resolve b handle = some t1.channels.fresh

def Collects (profile : BuildProfile) (kernel : K) (pre : List Event) : Call → Reply → Prop
  | .pollChannelOutcome b id, .number (.ok handle) => Outcome profile kernel pre id b handle
  | _, _ => True

structure Granted (profile : BuildProfile) (kernel : K) (events : List Event)
    (t : ChannelHandleTable K) :
    Prop where
  entitled : ∀ b ch, Holds t b ch → Entitled profile kernel events b ch
  asked : ∀ id req, t.registry.pending.get? id = some req →
    (.requestChannel req.requester req.target req.terms, .number (.ok id)) ∈ events
  owned : ∀ gate g, t.gates.bound.get? gate = some g →
    (.gateBind g.owner gate, .number (.ok gate)) ∈ events
  outcome : ∀ id b handle, t.accepted id = some (b, handle) →
    Outcome profile kernel events id b handle

variable {profile : BuildProfile} {kernel : K} {events : List Event} {t t' : ChannelHandleTable K}
  {call : Call} {reply : Reply} {b : BoundaryId} {ch : ChannelRef} {e : Event}

theorem Entitled.later (h : Entitled profile kernel events b ch) :
    Entitled profile kernel (events ++ [e]) b ch := by
  have hsplit : ∀ {pre post : List Event} {x : Event}, events = pre ++ x :: post →
      events ++ [e] = pre ++ x :: (post ++ [e]) := by
    rintro pre post x rfl
    rw [append_assoc, cons_append]
  cases h with
  | opened split before made => exact .opened (hsplit split) before made
  | requester split before made asked pending =>
    exact .requester (hsplit split) before made asked pending
  | target split before made asked pending => exact .target (hsplit split) before made asked pending
  | connector split before made => exact .connector (hsplit split) before made
  | owner split before bound queued link => exact .owner (hsplit split) before bound queued link

theorem Outcome.later {id handle : Nat} (h : Outcome profile kernel events id b handle)
    (other : ¬ Collected id e) : Outcome profile kernel (events ++ [e]) id b handle := by
  obtain ⟨before, target, handle', mid, t1, t2, terms, hsince, hrest⟩ := h
  exact ⟨before, target, handle', mid ++ [e], t1, t2, terms,
    since_snoc.mpr (.inr ⟨mid, hsince, rfl, other⟩), hrest⟩

private theorem Granted.extend (h : Granted profile kernel events t)
    (entitled : ∀ b ch, Holds t' b ch → Holds t b ch ∨ Entitled profile kernel (events ++ [e]) b ch)
    (asked : ∀ id req, t'.registry.pending.get? id = some req →
      t.registry.pending.get? id = some req ∨
      e = (.requestChannel req.requester req.target req.terms, .number (.ok id)))
    (owned : ∀ gate g, t'.gates.bound.get? gate = some g →
      (∃ queue, t.gates.bound.get? gate = some ⟨g.owner, queue⟩) ∨
        e = (.gateBind g.owner gate, .number (.ok gate)))
    (outcome : ∀ id b handle, t'.accepted id = some (b, handle) →
      t.accepted id = some (b, handle) ∧ ¬ Collected id e ∨
        Outcome profile kernel (events ++ [e]) id b handle) :
          Granted profile kernel (events ++ [e]) t' := by
  refine ⟨fun b ch hb => ?_, fun id req hreq => ?_, fun gate g hg => ?_, fun id b handle ho => ?_⟩
  · exact (entitled b ch hb).elim (fun hbefore => (h.entitled b ch hbefore).later) id
  · rcases asked id req hreq with hbefore | rfl
    · exact mem_append_left _ (h.asked id req hbefore)
    · exact mem_append_right _ (mem_singleton_self _)
  · rcases owned gate g hg with ⟨queue, hbefore⟩ | rfl
    · exact mem_append_left _ (h.owned gate ⟨g.owner, queue⟩ hbefore)
    · exact mem_append_right _ (mem_singleton_self _)
  · exact (outcome id b handle ho).elim (fun hbefore =>
      (h.outcome id b handle hbefore.1).later hbefore.2) (·)

private theorem get?_of_erase {m : SortedMap Nat PendingRequest} {id id' : Nat}
    {req : PendingRequest} (h : (m.erase id).get? id' = some req) : m.get? id' = some req := by
  rw [SortedMap.get?_erase] at h
  split at h
  · cases h
  · exact h

private theorem outcome_kept (other : ∀ b id handle, call = .pollChannelOutcome b id →
    reply ≠ .number (.ok handle)) :
    ∀ id b handle, t.accepted id = some (b, handle) →
      t.accepted id = some (b, handle) ∧ ¬ Collected id (call, reply) ∨
        Outcome profile kernel (events ++ [(call, reply)]) id b handle := by
  intro id b handle ho
  refine .inl ⟨ho, ?_⟩
  rintro ⟨b', handle', hsame⟩
  obtain ⟨hcall, hreply⟩ := Prod.mk.inj hsame
  exact other b' id handle' hcall hreply

omit [KernelInterface K] in
private theorem owned_kept (gate : GateId) (g : BoundGate) (h : t.gates.bound.get? gate = some g) :
    (∃ queue, t.gates.bound.get? gate = some ⟨g.owner, queue⟩) ∨
      e = (.gateBind g.owner gate, .number (.ok gate)) :=
  .inl ⟨g.pending, h⟩

private theorem Granted.requested {requester target : BoundaryId} {terms : ChannelTerms}
    {next : Nat} (h : Granted profile kernel events t) :
    Granted profile kernel
      (events ++ [(.requestChannel requester target terms, .number (.ok t.registry.nextRequest))])
      (t.withRegistry ⟨t.registry.nextId,
        t.registry.pending.insert t.registry.nextRequest ⟨requester, target, terms⟩, next⟩) := by
  refine h.extend (fun _ _ => .inl) (fun id req hreq => ?_) owned_kept (outcome_kept nofun)
  change (t.registry.pending.insert _ _).get? id = some req at hreq
  rw [SortedMap.get?_insert] at hreq
  split at hreq
  · rename_i hsame
    cases hreq
    rw [hsame]
    exact .inr rfl
  · exact .inl hreq

private theorem Granted.collected {requester : BoundaryId} {id handle : Nat}
    (h : Granted profile kernel events t) :
    Granted profile kernel
      (events ++ [(.pollChannelOutcome requester id, .number (.ok handle))])
      { t with accepted := update t.accepted id none } := by
  refine h.extend (fun _ _ => .inl) (fun _ _ => .inl) owned_kept (fun id' b handle' ho => ?_)
  change update t.accepted id none id' = some (b, handle') at ho
  rw [update_apply] at ho
  split at ho
  · cases ho
  · rename_i hother
    refine .inl ⟨ho, ?_⟩
    rintro ⟨b', handle'', hsame⟩
    cases hsame
    exact hother rfl

private theorem Granted.bound {owner : BoundaryId} {gate : GateId}
    (h : Granted profile kernel events t) :
    Granted profile kernel (events ++ [(.gateBind owner gate, .number (.ok gate))])
      (t.withBound gate ⟨owner, []⟩) := by
  refine h.extend (fun _ _ => .inl) (fun _ _ => .inl) (fun gate' g hg => ?_) (outcome_kept nofun)
  change (t.gates.bound.insert gate ⟨owner, []⟩).get? gate' = some g at hg
  rw [SortedMap.get?_insert] at hg
  split at hg
  · rename_i hsame
    cases hg
    rw [hsame]
    exact .inr rfl
  · exact .inl ⟨g.pending, hg⟩

private theorem outcome_of_accept {target requester : BoundaryId} {id handle own : Nat}
    {terms : ChannelTerms} (before : Run (step profile) (.new kernel) events t)
    (asked : (.requestChannel requester target terms, .number (.ok id)) ∈ events)
    (taken : step profile (.acceptChannel target id) t = some (.number (.ok handle), t'))
    (given : t'.resolve requester own = some t.channels.fresh) :
    Outcome profile kernel (events ++ [(.acceptChannel target id, .number (.ok handle))]) id
      requester own :=
  ⟨events, target, handle, [], t, t', terms, since_snoc.mpr (.inl ⟨rfl, rfl, rfl⟩), asked, before,
    taken, given⟩

theorem Granted.step (h : Granted profile kernel events t)
    (before : Run (step profile) (.new kernel) events t)
    (taken : Table.step profile call t = some (reply, t')) :
    Granted profile kernel (events ++ [(call, reply)]) t' := by
  cases stepped_of_step taken with
  | @opened boundary capacity maxMessageBytes nextId next c made count =>
    refine h.extend (fun b ch hb => ?_) (fun _ _ => .inl) owned_kept (outcome_kept nofun)
    refine (holds_give next hb).imp_right ?_
    rintro ⟨rfl, rfl⟩
    exact .opened rfl before rfl
  | requested => exact h.requested
  | @accepted target id nextId next next' req c aimed made count count' =>
    have hasked := h.asked id req aimed.1
    obtain ⟨requester, target', terms⟩ := req
    obtain ⟨hpending, rfl⟩ := aimed
    refine h.extend (fun b ch hb => ?_) (fun id' req' hreq => .inl (get?_of_erase hreq))
      owned_kept (fun id' b handle ho => ?_)
    · rcases holds_give next' hb with hb | ⟨rfl, rfl⟩
      · refine (holds_give next hb).imp_right ?_
        rintro ⟨rfl, rfl⟩
        exact .target rfl before rfl hasked hpending
      · exact .inr (.requester rfl before rfl hasked hpending)
    · change update t.accepted id _ id' = some (b, handle) at ho
      rw [update_apply] at ho
      split at ho
      · rename_i hsame
        cases ho
        rw [hsame]
        exact .inr (outcome_of_accept before hasked taken (update_self ..))
      · exact outcome_kept (by nofun) id' b handle ho
  | rejected =>
    exact h.extend (fun _ _ => .inl) (fun id' req' hreq => .inl (get?_of_erase hreq)) owned_kept
      (outcome_kept nofun)
  | collected => exact h.collected
  | bound => exact h.bound
  | @connected owner requester gate queue c nextChannelId next there made count =>
    refine h.extend (fun b ch hb => ?_) (fun _ _ => .inl)
      (fun gate' g hg => .inl (owner_of_withBound there hg)) (outcome_kept nofun)
    refine (holds_give next hb).imp_right ?_
    rintro ⟨rfl, rfl⟩
    exact .connector rfl before rfl
  | @linked owner gate p queue next there count =>
    refine h.extend (fun b ch hb => ?_) (fun _ _ => .inl)
      (fun gate' g hg => .inl (owner_of_withBound there hg)) (outcome_kept nofun)
    refine (holds_give next hb).imp_right ?_
    rintro ⟨rfl, rfl⟩
    exact .owner rfl before (h.owned gate _ there) there rfl
  | @operated call key op ch asks resolved =>
    refine h.extend (fun _ _ => .inl) (fun _ _ => .inl) owned_kept (outcome_kept ?_)
    rintro b id handle rfl
    cases asks
  | @idle call reply denied nextChannelId quiet nothing =>
    refine h.extend (fun _ _ => .inl) (fun _ _ => .inl) owned_kept (outcome_kept ?_)
    rintro b id handle rfl rfl
    exact quiet

theorem Granted.collects (h : Granted profile kernel events t)
    (stepped : Stepped profile t call reply t') :
    Collects profile kernel events call reply := by
  cases stepped with
  | collected outcome => exact h.outcome _ _ _ outcome
  | @operated call key op ch asks resolved =>
    unfold Collects
    split
    · cases asks
    · trivial
  | @idle call reply denied nextChannelId quiet nothing =>
    unfold Collects
    split
    · exact quiet.elim
    · trivial
  | _ => trivial

theorem granted_of_run (h : Run (step profile) (.new kernel) events t) :
    Granted profile kernel events t ∧ Always (Collects profile kernel) events := by
  induction h with
  | start =>
    refine ⟨⟨?_, nofun, nofun, nofun⟩, always_nil _⟩
    rintro b ch ⟨handle, hnone⟩
    cases hnone
  | next before taken ih =>
    exact ⟨ih.1.step before taken, always_snoc.mpr ⟨ih.2, ih.1.collects (stepped_of_step taken)⟩⟩

end

section

def granted : Call → Reply → Nat
  | .openChannel .., .number (.ok _) => 1
  | .acceptChannel .., .number (.ok _) => 2
  | .gateConnect .., .number (.ok _) => 1
  | .gateAccept .., .number (.ok _) => 1
  | _, _ => 0

variable (events : List Event)

def registrations : Nat := (events.map fun e => granted e.1 e.2).sum

/-- Every handle given out is an entry of a map that nothing is taken out of: more than an address
space has bytes fit no memory. -/
def EntriesFit : Prop := registrations events ≤ wordBound

theorem registrations_snoc (call : Call) (reply : Reply) :
    registrations (events ++ [(call, reply)]) = registrations events + granted call reply := by
  rw [registrations, map_append, sum_append, map_singleton, sum_singleton, registrations]

private theorem granted_of_idle {call : Call} {reply : Reply} (h : Idle call reply) :
    granted call reply = 0 := by
  unfold granted
  split
  all_goals first | exact False.elim h | rfl

private theorem granted_of_operation {call : Call} {reply : Reply}
    {asked : (BoundaryId × Nat) × CibosPlatform.Kernel.Channel.Queue.Op}
    (h : call.operation = some asked) :
    granted call reply = 0 := by
  unfold granted
  split
  all_goals first | rfl | cases h

structure Numbered (n : Nat) (t : ChannelHandleTable K) : Prop where
  nextHandle : t.nextHandle = n % wordBound
  below : ∀ b handle ch, t.handles (b, handle) = some ch → handle < n

def Extends (t t' : ChannelHandleTable K) : Prop :=
  ∀ key ch, t.handles key = some ch → t'.handles key = some ch

variable {profile : BuildProfile} {t t' : ChannelHandleTable K} {call : Call} {reply : Reply}
  {n next : Nat}

private theorem Numbered.give (boundary : BoundaryId) (ch : ChannelRef) (h : Numbered n t)
    (few : n < wordBound) (count : addWord profile t.nextHandle 1 = some next) :
    Numbered (n + 1) (t.give boundary ch next) ∧ Extends t (t.give boundary ch next) := by
  have hnext : t.nextHandle = n := h.nextHandle.trans (Nat.mod_eq_of_lt few)
  refine ⟨⟨?_, ?_⟩, ?_⟩
  · change next = (n + 1) % wordBound
    rw [addWord_eq count, hnext]
  · intro b handle ch' hhandle
    rw [handles_give] at hhandle
    split at hhandle
    · rename_i hkey
      cases hkey
      rw [hnext]
      exact Nat.lt_succ_self n
    · exact (h.below b handle ch' hhandle).trans (Nat.lt_succ_self n)
  · rintro ⟨b, handle⟩ ch' hhandle
    rw [handles_give, if_neg, hhandle]
    rintro hkey
    cases hkey
    have hlt := h.below _ _ ch' hhandle
    rw [hnext] at hlt
    exact lt_irrefl n hlt

private theorem Numbered.same (h : Numbered n t) (nextHandle : t'.nextHandle = t.nextHandle)
    (handles : t'.handles = t.handles) : Numbered n t' ∧ Extends t t' := by
  refine ⟨⟨nextHandle.trans h.nextHandle, ?_⟩, ?_⟩
  · rw [handles]
    exact h.below
  · intro key ch hkey
    rw [handles]
    exact hkey

variable [KernelInterface K]

theorem Numbered.step (h : Numbered n t) (few : n + granted call reply ≤ wordBound)
    (stepped : Stepped profile t call reply t') :
    Numbered (n + granted call reply) t' ∧ Extends t t' := by
  cases stepped with
  | @opened boundary capacity maxMessageBytes nextId next c made count =>
    exact Numbered.give boundary t.channels.fresh
      (t := (t.withRegistry { t.registry with nextId := nextId }).adding c)
      ⟨h.nextHandle, h.below⟩ few count
  | requested | rejected | collected | bound => exact h.same rfl rfl
  | @accepted target id nextId next next' req c aimed made count count' =>
    have hfirst := Numbered.give target t.channels.fresh
      (t := (t.withRegistry ⟨nextId, t.registry.pending.erase id, t.registry.nextRequest⟩).adding c)
      ⟨h.nextHandle, h.below⟩ (Nat.lt_of_succ_lt few) count
    have hsecond := hfirst.1.give req.requester t.channels.fresh few count'
    exact ⟨⟨hsecond.1.nextHandle, hsecond.1.below⟩, fun key ch hkey =>
      hsecond.2 key ch (hfirst.2 key ch hkey)⟩
  | @connected owner requester gate queue c nextChannelId next there made count =>
    have hgiven := Numbered.give requester t.channels.fresh
      (t := (t.withBound gate ⟨owner, queue ++ [⟨requester, t.channels.fresh⟩]⟩).adding c)
      ⟨h.nextHandle, h.below⟩ few count
    exact ⟨⟨hgiven.1.nextHandle, hgiven.1.below⟩, hgiven.2⟩
  | @linked owner gate p queue next there count =>
    exact Numbered.give owner p.listenerLink (t := t.withBound gate ⟨owner, queue⟩)
      ⟨h.nextHandle, h.below⟩ few count
  | @operated call key op ch asks resolved =>
    rw [granted_of_operation asks]
    exact h.same rfl rfl
  | idle quiet =>
    rw [granted_of_idle quiet]
    exact h.same rfl rfl

variable {kernel : K}

private theorem registrations_lt_dev {events : List Event}
    (h : Run (step .dev) (.new kernel) events t) :
    t.nextHandle = registrations events ∧ registrations events < wordBound := by
  induction h with
  | start => exact ⟨rfl, by decide⟩
  | @next events t t' call reply _ taken ih =>
    have hone : ∀ {next : Nat}, addWord .dev t.nextHandle 1 = some next →
        next = registrations events + 1 ∧ registrations events + 1 < wordBound := by
      intro next hcount
      obtain ⟨rfl, hlt⟩ := addWord_dev hcount
      rw [ih.1] at hlt ⊢
      exact ⟨rfl, hlt⟩
    rw [registrations_snoc]
    cases stepped_of_step taken with
    | opened made count => exact hone count
    | requested | rejected | collected | bound => exact ih
    | accepted aimed made count count' =>
      obtain ⟨rfl, -⟩ := hone count
      obtain ⟨rfl, hlt⟩ := addWord_dev count'
      exact ⟨rfl, hlt⟩
    | connected there made count | linked there count => exact hone count
    | @operated call key op ch asks resolved =>
      rw [granted_of_operation asks]
      exact ih
    | idle quiet =>
      rw [granted_of_idle quiet]
      exact ih

private theorem numbered_of_run {events : List Event}
    (h : Run (step profile) (.new kernel) events t) (few : registrations events ≤ wordBound) :
    Numbered (registrations events) t := by
  induction h with
  | start => exact ⟨rfl, nofun⟩
  | next _ taken ih =>
    rw [registrations_snoc] at few ⊢
    exact ((ih ((Nat.le_add_right _ _).trans few)).step few (stepped_of_step taken)).1

private theorem extends_of_run {pre post : List Event} {t1 : ChannelHandleTable K}
    (before : Run (step profile) (.new kernel) pre t1) (h : Run (step profile) t1 post t)
    (few : registrations (pre ++ post) ≤ wordBound) : Extends t1 t := by
  induction h with
  | start => exact fun _ _ hkey => hkey
  | @next post t t' call reply hpost taken ih =>
    rw [← append_assoc, registrations_snoc] at few
    have hfew := (Nat.le_add_right _ _).trans few
    have hstep := ((numbered_of_run (before.append hpost) hfew).step few (stepped_of_step taken)).2
    exact fun key ch hkey => hstep key ch (ih hfew key ch hkey)

end

section

variable [KernelInterface K] {events : List Event} {t : ChannelHandleTable K}

/-- A handle resolves only for a boundary with a title to the channel; two boundaries at most reach
a channel; until the counter of handles comes round, a handle stays with its channel; and an outcome
is collected once, by the requester. -/
theorem handle_table_authority (profile : BuildProfile) (kernel : K)
    (h : Run (step profile) (.new kernel) events t) :
    (∀ b handle ch, t.resolve b handle = some ch → Entitled profile kernel events b ch) ∧
    (∀ ch, ∃ b1 b2, ∀ b handle, t.resolve b handle = some ch → b = b1 ∨ b = b2) ∧
    ((profile = .release → EntriesFit events) → ∀ pre post t1, events = pre ++ post →
      Run (step profile) (.new kernel) pre t1 → ∀ b handle ch, t1.resolve b handle = some ch →
        t.resolve b handle = some ch) ∧
    Always (Collects profile kernel) events := by
  obtain ⟨hgranted, hcollects⟩ := granted_of_run h
  refine ⟨?_, ?_, ?_, hcollects⟩
  · exact fun b handle ch hresolve => hgranted.entitled b ch ⟨handle, hresolve⟩
  · intro ch
    obtain ⟨b1, b2, hwithin⟩ := (sound_of_run h).two ch
    exact ⟨b1, b2, fun b handle hresolve => hwithin b ⟨handle, hresolve⟩⟩
  · rintro hfew pre post t1 rfl hpre b handle ch hresolve
    have hfew : registrations (pre ++ post) ≤ wordBound := by
      cases profile with
      | dev => exact le_of_lt (registrations_lt_dev h).2
      | release => exact hfew rfl
    obtain ⟨t2, hfirst, hpost⟩ := h.split
    rw [hpre.unique hfirst] at hresolve
    exact extends_of_run hfirst hpost hfew (b, handle) ch hresolve

/-- A request that is accepted, and whose outcome is collected by the requester. -/
theorem handle_table_authority_one_request : ∃ events t, Run (step .release) (.new ()) events t ∧
    events.length = 4 ∧ t.resolve 1 1 = some 0 ∧ Entitled .release () events 1 0 ∧
    Always (Collects .release ()) events := by
  refine ⟨[(.requestChannel 1 2 ⟨⟨[], by decide⟩, .bidirectional, 8, 4⟩, .number (.ok 1)),
    (.acceptChannel 2 1, .number (.ok 0)),
    (.pollChannelOutcome 2 1, .number (.error .notPermitted)),
    (.pollChannelOutcome 1 1, .number (.ok 1))], exists_run_eval ⟨_, rfl, fun hrun => ?_⟩⟩
  obtain ⟨hentitled, -, -, hcollects⟩ := handle_table_authority .release () hrun
  exact ⟨rfl, rfl, hentitled 1 1 0 rfl, hcollects⟩

end

end CibosPlatform.KernelImage.Authority

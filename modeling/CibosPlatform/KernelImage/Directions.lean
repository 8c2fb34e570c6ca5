/- source: kernel-image/src/boot.rs, shared/src/protocols/ipc.rs
   digest: Whether one-way channels are one-way, and whether the messages of a link cross it. -/

import CibosPlatform.KernelImage.Traffic

namespace CibosPlatform.KernelImage.Directions

open Core Events MachineWord Kernel.Channel List Function
open Kernel.Channel.Queue (ChannelInner Wired)
open Kernel.Channel.Sharing
open Kernel.Gate.Registry (GateId)
open Holders Table Traffic Shared.Ipc

variable {K : Type} {t t' : ChannelHandleTable K}

section

def ends (requester target : BoundaryId) : ChannelDirection → Option (BoundaryId × BoundaryId)
  | .requesterToReceiver => some (requester, target)
  | .receiverToRequester => some (target, requester)
  | .bidirectional => none

structure Directed (ch : ChannelRef) (sender receiver : BoundaryId) (s : Traced K) : Prop where
  sends : ∀ sent ∈ sendsOf (s.history ch), sent.1 = sender
  recvs : ∀ got ∈ recvsOf (s.history ch), got.1 = receiver

/-- The boundary makes an operation that is its own, or that the channel refuses anyway: a send on a
closed or full channel or of too much, a receive of nothing. -/
def Fits (sender receiver b : BoundaryId) (c : ChannelInner) : Queue.Op → Prop
  | .send _ msg => b = sender ∨ c.state.closed = true ∨ c.maxMessageBytes < msg.length ∨
      c.capacity ≤ c.state.messages.length
  | .recv _ => b = receiver ∨ c.state.messages = []
  | .close => True

variable {s s' : Traced K} {call : Call} {ch : ChannelRef} {sender receiver : BoundaryId}

theorem directed_congr (same : s'.history ch = s.history ch) :
    Directed ch sender receiver s' ↔ Directed ch sender receiver s := by
  constructor
  · rintro ⟨hsends, hrecvs⟩
    rw [same] at hsends hrecvs
    exact ⟨hsends, hrecvs⟩
  · rintro ⟨hsends, hrecvs⟩
    rw [← same] at hsends hrecvs
    exact ⟨hsends, hrecvs⟩

theorem directed_snoc {e : Entry} (h : Directed ch sender receiver s)
    (more : s'.history ch = s.history ch ++ [e]) :
    Directed ch sender receiver s' ↔
      (∀ sent ∈ sendsOf [e], sent.1 = sender) ∧ ∀ got ∈ recvsOf [e], got.1 = receiver := by
  constructor
  · rintro ⟨hsends, hrecvs⟩
    rw [more, sendsOf_append] at hsends
    rw [more, recvsOf_append] at hrecvs
    exact ⟨fun sent hmem => hsends sent (mem_append_right _ hmem),
      fun got hmem => hrecvs got (mem_append_right _ hmem)⟩
  · rintro ⟨hsends, hrecvs⟩
    constructor
    · rw [more, sendsOf_append]
      exact fun sent hmem => (mem_append.mp hmem).elim (h.sends sent) (hsends sent)
    · rw [more, recvsOf_append]
      exact fun got hmem => (mem_append.mp hmem).elim (h.recvs got) (hrecvs got)

variable [KernelInterface K] {profile : BuildProfile} {reply : Reply}

def Permitted (ch : ChannelRef) (sender receiver : BoundaryId) (s : Traced K) (call : Call) :
    Prop :=
  ∀ b op, operates call s.table = some (ch, b, op) →
    Fits sender receiver b (s.table.channels.inner ch) op

theorem fits_iff {w w' : Wired K} {b : BoundaryId} {op : Queue.Op} {answered : Queue.Reply}
    (stepped : Queue.Stepped w op answered w') :
    ((∀ sent ∈ sendsOf [(b, op, answered)], sent.1 = sender) ∧
      ∀ got ∈ recvsOf [(b, op, answered)], got.1 = receiver) ↔
        Fits sender receiver b w.channel op := by
  -- an answer that moves no message asks nothing of the boundary
  have hquiet : sendsOf [(b, op, answered)] = [] → recvsOf [(b, op, answered)] = [] →
      Fits sender receiver b w.channel op →
        (((∀ sent ∈ sendsOf [(b, op, answered)], sent.1 = sender) ∧
      ∀ got ∈ recvsOf [(b, op, answered)], got.1 = receiver) ↔
        Fits sender receiver b w.channel op) := by
    intro hsends hrecvs hfits
    rw [hsends, hrecvs]
    exact ⟨fun _ => hfits, fun _ => ⟨nofun, nofun⟩⟩
  cases stepped with
  | @send lane msg _ _ sends =>
    cases sends with
    | closed shut => exact hquiet rfl rfl (.inr (.inl shut))
    | tooLarge isOpen large => exact hquiet rfl rfl (.inr (.inr (.inl large)))
    | full isOpen small full => exact hquiet rfl rfl (.inr (.inr (.inr full)))
    | sent isOpen small room =>
      constructor
      · rintro ⟨hsends, -⟩
        exact .inl (hsends (b, msg) (mem_singleton_self _))
      · rintro (rfl | hshut | hlarge | hfull)
        · exact ⟨fun sent hmem => by rw [mem_singleton.mp hmem], nofun⟩
        · rw [isOpen] at hshut
          cases hshut
        · exact absurd small (not_le.mpr hlarge)
        · exact absurd hfull (not_le.mpr room)
  | @recv lane _ _ receives =>
    cases receives with
    | empty none isOpen | closed none shut => exact hquiet rfl rfl (.inr none)
    | @message msg rest some =>
      constructor
      · rintro ⟨-, hrecvs⟩
        exact .inl (hrecvs (b, msg) (mem_singleton_self _))
      · rintro (rfl | hnone)
        · exact ⟨nofun, fun got hmem => by rw [mem_singleton.mp hmem]⟩
        · rw [some] at hnone
          cases hnone
  | close => exact hquiet rfl rfl trivial

theorem directed_step (h : Directed ch sender receiver s)
    (taken : tracedStep profile call s = some (reply, s')) :
    Directed ch sender receiver s' ↔ Permitted ch sender receiver s call := by
  -- a call that is not on this channel
  have helsewhere : (∀ b op, operates call s.table ≠ some (ch, b, op)) →
    s'.history ch = s.history ch →
      (Directed ch sender receiver s' ↔ Permitted ch sender receiver s call) := by
    intro hasks hsame
    rw [directed_congr hsame]
    exact ⟨fun _ b op hhere => absurd hhere (hasks b op), fun _ => h⟩
  cases moved_of_tracedStep taken with
  | @operated ch' b op w answered asks holds answers =>
    by_cases hsame : ch' = ch
    · subst hsame
      rw [directed_snoc h (update_self ..), fits_iff (Queue.stepped_of_step answers)]
      constructor
      · intro hfits b' op' hasks
        rw [asks] at hasks
        cases hasks
        exact hfits
      · exact fun hpermitted => hpermitted b op asks
    · refine helsewhere (fun b' op' hasks => ?_) (update_of_ne (Ne.symm hsame) ..)
      rw [asks] at hasks
      cases hasks
      exact hsame rfl
  | other asks =>
    refine helsewhere (fun b op hasks => ?_) rfl
    rw [asks] at hasks
    cases hasks

private theorem resolve_of_accept {target : BoundaryId} {id handle : Nat}
    (stepped : Stepped profile t (.acceptChannel target id) (.number (.ok handle)) t') :
    t'.resolve target handle = some t.channels.fresh := by
  generalize hreply : Reply.number (.ok handle) = reply at stepped
  cases stepped with
  | @accepted _ _ nextId next next' req c aimed made count count' =>
    cases hreply
    rw [ChannelHandleTable.resolve]
    rw [handles_give]
    split
    · rfl
    · exact update_self ..
  | operated asks => cases asks
  | idle quiet =>
    subst hreply
    exact quiet.elim

/-- On the channel of an accepted one-way request the directions are kept exactly as long as nobody
else tries when the channel would let it. -/
theorem direction_kept_iff {kernel : K} {pre post : List (Call × Reply)} {s1 s2 : Traced K}
    {target : BoundaryId} {id handle : Nat} (before : Run (tracedStep profile) (.new kernel) pre s1)
    (accept : tracedStep profile (.acceptChannel target id) s1 = some (.number (.ok handle), s2))
    (channel : s2.table.resolve target handle = some ch)
    (after : Run (tracedStep profile) s2 post s) :
    ∀ request, s1.table.registry.pending.get? id = some request → ∀ sender receiver,
      ends request.requester request.target request.terms.direction = some (sender, receiver) →
      (Through (tracedStep profile) s2 (fun _ s => Directed ch sender receiver s) post ↔
        Meets (tracedStep profile) s2 (fun _ s call => Permitted ch sender receiver s call)
          post) := by
  intro request _ sender receiver _
  have haccept := tracedStep_eq_some.mp accept
  rw [resolve_of_accept (stepped_of_step haccept.1)] at channel
  cases channel
  have hunused : s2.history s1.table.channels.fresh = [] := by
    have hnote : s2.history = s1.history := haccept.2
    rw [hnote]
    exact (recorded_of_run before).unused _ (le_rfl)
  refine after.through_iff_meets ?_ fun _ s call reply s' _ h taken => directed_step h taken
  constructor
  · intro sent hmem
    rw [hunused] at hmem
    cases hmem
  · intro got hmem
    rw [hunused] at hmem
    cases hmem

def oneWay : ChannelTerms := ⟨⟨[], by decide⟩, .requesterToReceiver, 8, 4⟩

def delivery : List (Call × Reply) :=
  [(.pollChannelOutcome 1 1, .number (.ok 1)), (.channelSend 1 1 7 [5], .done (.ok ())),
    (.channelRecv 2 0 8, .bytes (.ok [5]))]

theorem direction_kept_iff_delivery : ∃ (s1 s2 s : Traced Unit),
    Run (tracedStep .release) (.new ()) [(.requestChannel 1 2 oneWay, .number (.ok 1))] s1 ∧
    s1.table.registry.pending.get? 1 = some ⟨1, 2, oneWay⟩ ∧
    tracedStep .release (.acceptChannel 2 1) s1 = some (.number (.ok 0), s2) ∧
    s2.table.resolve 2 0 = some 0 ∧ Run (tracedStep .release) s2 delivery s ∧
    Through (tracedStep .release) s2 (fun _ s => Directed 0 1 2 s) delivery := by
  have hbefore : Run (tracedStep .release) (.new ()) [(.requestChannel 1 2 oneWay, .number (.ok 1))]
    _ := .eval rfl
  refine ⟨_, _, _, hbefore, rfl, rfl, rfl, .eval rfl, (direction_kept_iff hbefore
    (show tracedStep .release (.acceptChannel 2 1) _ = some (.number (.ok 0), _) from rfl)
    rfl (.eval rfl) ⟨1, 2, oneWay⟩ rfl 1 2 rfl).mpr ?_⟩
  refine ((meets_nil.next .start ?_).next (.eval rfl) ?_).next (.eval rfl) ?_
  · rintro _ _ ⟨⟩
  · rintro _ _ ⟨⟩
    exact .inl rfl
  · rintro _ _ ⟨⟩
    exact .inl rfl

/-- On a channel on which 1 was to send and 2 to receive, 2 sends and 1 receives. -/
theorem direction_reversed : ∃ (s1 s2 s : Traced Unit),
    Run (tracedStep .release) (.new ()) [(.requestChannel 1 2 oneWay, .number (.ok 1))] s1 ∧
    s1.table.registry.pending.get? 1 = some ⟨1, 2, oneWay⟩ ∧
    ends 1 2 oneWay.direction = some (1, 2) ∧
    tracedStep .release (.acceptChannel 2 1) s1 = some (.number (.ok 0), s2) ∧
    s2.table.resolve 2 0 = some 0 ∧
    Run (tracedStep .release) s2 [(.pollChannelOutcome 1 1, .number (.ok 1)),
      (.channelSend 2 0 8 [5], .done (.ok ())),
      (.channelRecv 1 1 7, .bytes (.ok [5]))] s ∧ ¬ Directed 0 1 2 s := by
  refine ⟨_, _, _, .eval rfl, rfl, rfl, rfl, rfl, .eval rfl, fun hdirected => ?_⟩
  cases hdirected.1 (2, [5]) (mem_singleton_self _)

end

section

structure Joined (link : ChannelRef) (b1 b2 : BoundaryId) (start : Nat) (s : Traced K) : Prop where
  recorded : Recorded s
  exist : link < s.table.channels.fresh
  settled : ∀ gate p, WaitsAt s.table gate p → p.listenerLink ≠ link
  within : Within s.table link b1 b2
  entries : ∀ e ∈ s.history link, e.1 = b1 ∨ e.1 = b2
  count : start ≤ (recvsOf (s.history link)).length

/-- Each message received, from the message number `start` on, was sent from the other end. Message `k`
that comes out is message `k` that went in. -/
def Crossed (link : ChannelRef) (b1 b2 : BoundaryId) (start : Nat) (s : Traced K) : Prop :=
  ∀ k, start ≤ k → ∀ b msg, (recvsOf (s.history link))[k]? = some (b, msg) →
    ∃ b', (sendsOf (s.history link))[k]? = some (b', msg) ∧ (b = b1 ∧ b' = b2 ∨ b = b2 ∧ b' = b1)

variable {s s' : Traced K} {call : Call} {link : ChannelRef} {b1 b2 : BoundaryId} {start : Nat}

variable (h : Joined link b1 b2 start s)

include h

theorem Joined.length_le :
    (recvsOf (s.history link)).length ≤ (sendsOf (s.history link)).length := by
  have hlength := congrArg length (h.recorded.fifo h.exist)
  rw [length_map, length_append, length_map] at hlength
  exact hlength ▸ Nat.le_add_right ..

theorem Joined.oldest {msg : Message} {rest : List Message}
    (buffered : (s.table.channels.inner link).state.messages = msg :: rest) :
    ∃ b, (sendsOf (s.history link))[(recvsOf (s.history link)).length]? = some (b, msg) ∧
      (b = b1 ∨ b = b2) := by
  have hfifo := h.recorded.fifo h.exist
  have hnext : ((sendsOf (s.history link)).map Prod.snd)[(recvsOf (s.history link)).length]? =
    some msg := by
    rw [hfifo, buffered, getElem?_append_right (by rw [length_map]), length_map, Nat.sub_self]
    rfl
  rw [getElem?_map, Option.map_eq_some_iff] at hnext
  obtain ⟨⟨b, msg'⟩, hget, rfl⟩ := hnext
  refine ⟨b, hget, ?_⟩
  obtain ⟨e, he, rfl⟩ := mem_of_mem_sendsOf (mem_of_getElem? hget)
  exact h.entries e he

theorem crossed_sent {more : List (BoundaryId × Message)}
    (sends : sendsOf (s'.history link) = sendsOf (s.history link) ++ more)
    (recvs : recvsOf (s'.history link) = recvsOf (s.history link)) :
    Crossed link b1 b2 start s' ↔ Crossed link b1 b2 start s := by
  have hsame : ∀ (k : Nat) b msg, (recvsOf (s.history link))[k]? = some (b, msg) →
      (sendsOf (s'.history link))[k]? = (sendsOf (s.history link))[k]? := by
    intro k b msg hget
    rw [sends]
    exact getElem?_append_left ((List.getElem?_eq_some_iff.mp hget).1.trans_le h.length_le)
  constructor
  · intro hcrossed k hk b msg hget
    rw [← hsame k b msg hget]
    exact hcrossed k hk b msg (by rw [recvs]; exact hget)
  · intro hcrossed k hk b msg hget
    rw [recvs] at hget
    rw [hsame k b msg hget]
    exact hcrossed k hk b msg hget

theorem crossed_received (differ : b1 ≠ b2) (crossed : Crossed link b1 b2 start s)
    {b b' : BoundaryId} {msg : Message} (receives : b = b1 ∨ b = b2) (sent : b' = b1 ∨ b' = b2)
    (sends : sendsOf (s'.history link) = sendsOf (s.history link))
    (recvs : recvsOf (s'.history link) = recvsOf (s.history link) ++ [(b, msg)])
    (oldest : (sendsOf (s.history link))[(recvsOf (s.history link)).length]? = some (b', msg)) :
    Crossed link b1 b2 start s' ↔ b' ≠ b := by
  rw [Crossed, sends, recvs]
  constructor
  · rintro hcrossed rfl
    have hlast : (recvsOf (s.history link) ++ [(b', msg)])[(recvsOf (s.history link)).length]? =
      some (b', msg) := by
      rw [getElem?_append_right (le_rfl), Nat.sub_self]
      rfl
    obtain ⟨b'', hget, hends⟩ := hcrossed _ h.count b' msg hlast
    rw [oldest] at hget
    cases hget
    rcases hends with ⟨rfl, hsame⟩ | ⟨rfl, hsame⟩
    · exact differ hsame
    · exact differ hsame.symm
  · intro hother k hk b'' msg'' hget
    by_cases hold : k < (recvsOf (s.history link)).length
    · rw [getElem?_append_left hold] at hget
      exact crossed k hk b'' msg'' hget
    · rw [getElem?_append_right (not_lt.mp hold)] at hget
      obtain ⟨hlast, hsame⟩ := List.getElem?_eq_some_iff.mp hget
      rw [length_singleton] at hlast
      obtain rfl : k = (recvsOf (s.history link)).length := by omega
      rw [getElem_singleton, Prod.mk.injEq] at hsame
      obtain ⟨rfl, rfl⟩ := hsame
      refine ⟨b', oldest, ?_⟩
      rcases receives with rfl | rfl <;> rcases sent with rfl | rfl
      · exact absurd rfl hother
      · exact .inl ⟨rfl, rfl⟩
      · exact .inr ⟨rfl, rfl⟩
      · exact absurd rfl hother

variable [KernelInterface K] {profile : BuildProfile} {reply : Reply}

def FromOther (link : ChannelRef) (s : Traced K) (call : Call) : Prop :=
  ∀ b lane, operates call s.table = some (link, b, .recv lane) → ∀ b' msg,
    (sendsOf (s.history link))[(recvsOf (s.history link)).length]? = some (b', msg) → b' ≠ b

theorem Joined.step (taken : tracedStep profile call s = some (reply, s')) :
    Joined link b1 b2 start s' := by
  have hstepped := stepped_of_step (tracedStep_eq_some.mp taken).1
  obtain ⟨hsettled, hheld⟩ := settled_step hstepped h.exist h.settled
  have hentries : (∀ e ∈ s'.history link, e.1 = b1 ∨ e.1 = b2) ∧
      start ≤ (recvsOf (s'.history link)).length := by
    cases moved_of_tracedStep taken with
    | @operated ch b op w answered asks holds answers =>
      by_cases hsame : ch = link
      · subst hsame
        simp only [update_self, recvsOf_append, length_append]
        refine ⟨fun e he => ?_, h.count.trans (Nat.le_add_right ..)⟩
        rcases mem_append.mp he with he | he
        · exact h.entries e he
        · rw [mem_singleton.mp he]
          exact h.within b holds
      · simp only [update_of_ne (Ne.symm hsame)]
        exact ⟨h.entries, h.count⟩
    | other => exact ⟨h.entries, h.count⟩
  exact ⟨h.recorded.step taken, h.exist.trans_le (fresh_le_of_stepped hstepped), hsettled,
    fun b hb => h.within b (hheld b hb), hentries.1, hentries.2⟩

theorem crossed_step (differ : b1 ≠ b2) (crossed : Crossed link b1 b2 start s)
    (taken : tracedStep profile call s = some (reply, s')) :
    Crossed link b1 b2 start s' ↔ FromOther link s call := by
  -- a call that receives nothing on this link
  have hnothing : (∀ b lane, operates call s.table = some (link, b, .recv lane) →
      (s.table.channels.inner link).state.messages = []) → ∀ more,
      sendsOf (s'.history link) = sendsOf (s.history link) ++ more →
      recvsOf (s'.history link) = recvsOf (s.history link) →
      (Crossed link b1 b2 start s' ↔ FromOther link s call) := by
    intro hempty more hsends hrecvs
    rw [crossed_sent h hsends hrecvs]
    refine ⟨fun _ b lane hasks b' msg hget => ?_, fun _ => crossed⟩
    have hlength := congrArg length (h.recorded.fifo h.exist)
    rw [hempty b lane hasks, append_nil, length_map, length_map] at hlength
    exact absurd (List.getElem?_eq_some_iff.mp hget).1 (not_lt.mpr (Nat.le_of_eq hlength))
  cases moved_of_tracedStep taken with
  | other asks =>
    refine hnothing (fun b lane hasks => ?_) [] (append_nil _).symm rfl
    rw [asks] at hasks
    cases hasks
  | @operated ch b op w answered asks holds answers =>
    by_cases hsame : ch = link
    · subst hsame
      simp only [update_self, sendsOf_append, recvsOf_append] at hnothing
      cases Queue.stepped_of_step answers with
      | @send lane msg _ _ sends =>
        refine hnothing (fun b lane hasks => ?_) _ rfl (by cases sends <;> exact append_nil _)
        rw [asks] at hasks
        cases hasks
      | @recv lane _ _ receives =>
        cases receives with
        | empty none isOpen | closed none shut =>
          exact hnothing (fun _ _ _ => none) _ rfl (append_nil _)
        | @message msg rest some =>
          obtain ⟨b', hget, hfrom⟩ := h.oldest some
          refine (crossed_received h differ crossed (h.within b holds) hfrom ?_ ?_ hget).trans
            ⟨fun hother c lane' hasks c' msg' hget' => ?_, fun hother =>
              hother b lane asks b' msg hget⟩
          · simp only [update_self, sendsOf_append]
            exact append_nil _
          · simp only [update_self, recvsOf_append]
            rfl
          · rw [asks] at hasks
            rw [hget] at hget'
            cases hasks
            cases hget'
            exact hother
      | close =>
        refine hnothing (fun b lane hasks => ?_) _ rfl (append_nil _)
        rw [asks] at hasks
        cases hasks
    · refine hnothing (fun b lane hasks => ?_) [] ?_ ?_
      · rw [asks] at hasks
        cases hasks
        exact absurd rfl hsame
      · simp only [update_of_ne (Ne.symm hsame), append_nil]
      · simp only [update_of_ne (Ne.symm hsame)]

omit h

private theorem connect_spec (sound : Sound t) {requester : BoundaryId} {gate : GateId}
    {handle : Nat} (stepped : Stepped profile t (.gateConnect requester gate)
      (.number (.ok handle)) t') :
    t'.resolve requester handle = some t.channels.fresh ∧ t.channels.fresh < t'.channels.fresh ∧
      ∀ gate' p, WaitsAt t' gate' p → p.listenerLink = t.channels.fresh →
        p.requester = requester := by
  generalize hreply : Reply.number (.ok handle) = reply at stepped
  cases stepped with
  | @connected owner _ _ queue c nextChannelId next there made count =>
    cases hreply
    refine ⟨update_self .., lt_add_one _, fun gate' p hp hlink => ?_⟩
    have hold : ∀ gate', ¬ WaitsAt t gate' p := fun gate' hp =>
      ne_of_lt (sound.waiting gate' p hp) hlink
    have hp : WaitsAt (t.withBound gate ⟨owner, queue ++ [⟨requester, t.channels.fresh⟩]⟩) gate'
      p := hp
    rw [waitsAt_withBound] at hp
    split at hp
    · rcases mem_append.mp hp with hp | hp
      · exact absurd ((waitsAt_of_bound there p).mpr hp) (hold gate)
      · rw [mem_singleton.mp hp]
    · exact absurd hp (hold gate')
  | operated asks => cases asks
  | idle quiet =>
    subst hreply
    exact quiet.elim

private theorem gateAccept_spec (sound : Sound t) {owner : BoundaryId} {gate : GateId}
    {handle : Nat} (stepped : Stepped profile t (.gateAccept owner gate)
      (.number (.ok handle)) t') :
    ∃ p, WaitsAt t gate p ∧ t'.resolve owner handle = some p.listenerLink ∧
      (∀ gate' p', WaitsAt t' gate' p' → p'.listenerLink ≠ p.listenerLink) ∧
      ∀ b, Holds t' b p.listenerLink → Holds t b p.listenerLink ∨ b = owner := by
  generalize hreply : Reply.number (.ok handle) = reply at stepped
  cases stepped with
  | @linked _ _ p queue next there count =>
    cases hreply
    refine ⟨p, (waitsAt_of_bound there p).mpr mem_cons_self, update_self ..,
      (sound.dequeue there).2, fun b hb => ?_⟩
    exact (holds_give next hb).imp_right And.left
  | operated asks => cases asks
  | idle quiet =>
    subst hreply
    exact quiet.elim

variable {events : List (Call × Reply)}

private theorem waits_of_run {s0 : Traced K} {requester : BoundaryId}
    (h : Run (tracedStep profile) s0 events s) (exist : link < s0.table.channels.fresh)
    (waits : ∀ gate p, WaitsAt s0.table gate p → p.listenerLink = link → p.requester = requester) :
    link < s.table.channels.fresh ∧
      ∀ gate p, WaitsAt s.table gate p → p.listenerLink = link → p.requester = requester := by
  induction h with
  | start => exact ⟨exist, waits⟩
  | next _ taken ih =>
    have hstepped := stepped_of_step (tracedStep_eq_some.mp taken).1
    refine ⟨ih.1.trans_le (fresh_le_of_stepped hstepped), fun gate p hp hlink => ?_⟩
    rcases waitsAt_of_stepped hstepped hp with ⟨gate', hbefore⟩ | hfresh
    · exact ih.2 gate' p hbefore hlink
    · exact absurd (hlink.symm.trans hfresh) (ne_of_lt ih.1)

theorem joined_of_run {s0 : Traced K} (h : Run (tracedStep profile) s0 events s)
    (joined : Joined link b1 b2 start s0) : Joined link b1 b2 start s := by
  induction h with
  | start => exact joined
  | next _ taken ih => exact ih.step taken

/-- Every message on an accepted link crosses from one end to the other exactly as long as no end
receives while the oldest message is its own. -/
theorem link_crossed_iff {kernel : K} {pre mid post : List (Call × Reply)} {s1 s2 s3 s4 : Traced K}
    {requester owner : BoundaryId} {gate : GateId} {handle handle' : Nat}
    (before : Run (tracedStep profile) (.new kernel) pre s1)
    (connect : tracedStep profile (.gateConnect requester gate) s1 =
      some (.number (.ok handle), s2))
    (between : Run (tracedStep profile) s2 mid s3)
    (accept : tracedStep profile (.gateAccept owner gate) s3 = some (.number (.ok handle'), s4))
    (ofRequester : s2.table.resolve requester handle = some link)
    (ofOwner : s4.table.resolve owner handle' = some link) (differ : requester ≠ owner)
    (after : Run (tracedStep profile) s4 post s) :
    Through (tracedStep profile) s4
        (fun _ s => Crossed link requester owner (recvsOf (s4.history link)).length s) post ↔
      Meets (tracedStep profile) s4 (fun _ s call => FromOther link s call) post := by
  have hrecorded1 := recorded_of_run before
  have hrecorded3 := recorded_of_run ((before.next connect).append between)
  obtain ⟨hown, hexist, hwaits⟩ := connect_spec hrecorded1.sound
    (stepped_of_step (tracedStep_eq_some.mp connect).1)
  rw [ofRequester] at hown
  cases hown
  obtain ⟨hexist3, hwaits3⟩ := waits_of_run between hexist hwaits
  have haccept := tracedStep_eq_some.mp accept
  obtain ⟨p, hp, hother, hsettled, hheld⟩ :=
    gateAccept_spec hrecorded3.sound (stepped_of_step haccept.1)
  rw [ofOwner, Option.some.injEq] at hother
  have hrequester := hwaits3 gate p hp hother.symm
  have hjoined : Joined s1.table.channels.fresh requester owner
      (recvsOf (s4.history s1.table.channels.fresh)).length s4 := by
    refine ⟨hrecorded3.step accept, hexist3.trans_le
      (fresh_le_of_stepped (stepped_of_step haccept.1)), ?_, ?_, ?_,
      le_rfl⟩
    · rw [hother]
      exact hsettled
    · intro b hb
      rw [hother] at hb
      exact (hheld b hb).imp_left fun hbefore =>
        (hrecorded3.sound.connector gate p hp b hbefore).trans hrequester
    · intro e he
      have hnote : s4.history = s3.history := haccept.2
      rw [hnote, hother] at he
      exact .inl ((hrecorded3.connector gate p hp e he).trans hrequester)
  refine after.through_iff_meets ?_ fun earlier s call reply s' hrun h taken =>
    crossed_step (joined_of_run hrun hjoined) differ h taken
  -- nothing was received since the accept
  intro k hk b msg hget
  exact absurd (List.getElem?_eq_some_iff.mp hget).1 (not_lt.mpr hk)

def exchange : List (Call × Reply) :=
  [(.linkSend 2 0 7 [5], .done (.ok ())), (.linkRecv 1 1 8, .bytes (.ok [5])),
    (.linkSend 1 1 8 [6], .done (.ok ())), (.linkRecv 2 0 7, .bytes (.ok [6]))]

theorem link_crossed_iff_exchange : ∃ (s1 s2 s4 s : Traced Unit),
    Run (tracedStep .release) (.new ()) [(.gateBind 1 80, .number (.ok 80))] s1 ∧
    tracedStep .release (.gateConnect 2 80) s1 = some (.number (.ok 0), s2) ∧
    tracedStep .release (.gateAccept 1 80) s2 = some (.number (.ok 1), s4) ∧
    s2.table.resolve 2 0 = some 0 ∧ s4.table.resolve 1 1 = some 0 ∧
    Run (tracedStep .release) s4 exchange s ∧
    Through (tracedStep .release) s4 (fun _ s => Crossed 0 2 1 (recvsOf (s4.history 0)).length s)
      exchange := by
  have hbefore : Run (tracedStep .release) (.new ()) [(.gateBind 1 80, .number (.ok 80))] _ :=
    .eval rfl
  refine ⟨_, _, _, _, hbefore, rfl, rfl, rfl, rfl, .eval rfl, (link_crossed_iff hbefore
    (show tracedStep .release (.gateConnect 2 80) _ = some (.number (.ok 0), _) from rfl) .start
    (show tracedStep .release (.gateAccept 1 80) _ = some (.number (.ok 1), _) from rfl) rfl rfl
    (by decide) (.eval rfl)).mpr ?_⟩
  refine (((meets_nil.next .start ?_).next (.eval rfl) ?_).next (.eval rfl) ?_).next (.eval rfl) ?_
  · rintro _ _ ⟨⟩
  · rintro _ _ ⟨⟩ _ _ ⟨⟩
    decide
  · rintro _ _ ⟨⟩
  · rintro _ _ ⟨⟩ _ _ ⟨⟩
    decide

/-- Boundary 2 sends a message over its link to 1 and receives it itself. -/
theorem own_message_received : ∃ (s4 s : Traced Unit),
    Run (tracedStep .release) (.new ()) [(.gateBind 1 80, .number (.ok 80)),
    (.gateConnect 2 80, .number (.ok 0)), (.gateAccept 1 80, .number (.ok 1))] s4 ∧
    s4.table.resolve 2 0 = some 0 ∧ s4.table.resolve 1 1 = some 0 ∧
    Run (tracedStep .release) s4 [(.linkSend 2 0 7 [5], .done (.ok ())),
      (.linkRecv 2 0 7, .bytes (.ok [5]))] s ∧
    sendsOf (s.history 0) = [(2, [5])] ∧ recvsOf (s.history 0) = [(2, [5])] ∧
      ¬ Crossed 0 2 1 0 s := by
  refine ⟨_, _, .eval rfl, rfl, rfl, .eval rfl, rfl, rfl, fun hcrossed => ?_⟩
  obtain ⟨b', hget, hends⟩ := hcrossed 0 (Nat.le_refl 0) 2 [5] rfl
  cases hget
  rcases hends with ⟨-, hends⟩ | ⟨hends, -⟩ <;> cases hends

end

end CibosPlatform.KernelImage.Directions

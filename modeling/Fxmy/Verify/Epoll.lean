import Fxmy.MainEpoll
import Fxmy.Lib.Exec
import Fxmy.Lib.Stages

/-!
# The epoll server over a run

Nothing registers a connection: `num_connections` stays zero, the scan ends before the first slot, and
every socket is handled in slot 0. So two sockets are never apart, and the state of one runs out of the
handler table when the last handler is done (`keepsApart_iff`).
-/

namespace Fxmy

open Exec

namespace EpollServer

/-! ## One event -/

/-- The event is handled in slot `i`: the handler table has an entry for the state there, and afterwards
the slot holds the socket and the others are as they were. -/
structure Serves (before : EpollServer) (event : ReadyEvent) (i : Nat) (after : EpollServer) : Prop where
  found : before.slot event.socketFd = .ok i
  indexed : ∃ slot, before.connections[i]? = some slot ∧ slot.state < STATE_NUM_STATES
  returned : before.handleConnection event = .ok (0, after)
  held : after.connections[i]?.map (·.socketFd) = some event.socketFd
  unchanged : ∀ j, j ≠ i → after.connections[j]? = before.connections[j]? ∧
    after.activeConnections[j]? = before.activeConnections[j]?

/-- **What an event does**, if the call returns: it is handled in the slot at which the scan ends. -/
theorem serves_of_ok {before after : EpollServer} {event : ReadyEvent} {i : Nat} {result : Int}
    (hfound : before.slot event.socketFd = .ok i)
    (h : before.handleConnection event = .ok (result, after)) : Serves before event i after := by
  have hreturn := h
  unfold handleConnection at h
  rw [hfound, except_bind_ok] at h
  by_cases hi : i < FXMY_MAX_CONNECTIONS
  · rw [dif_pos hi] at h
    simp only at h
    cases hhandler : handlers[before.connections[i].state]? with
    | none =>
      rw [hhandler] at h
      cases h
    | some handler =>
      rw [hhandler] at h
      cases h
      have hstate := (List.getElem?_eq_some_iff.mp hhandler).1
      refine ⟨hfound, ⟨_, Vector.getElem?_eq_getElem hi, hstate⟩, hreturn, ?_, fun j hj => ⟨?_, ?_⟩⟩
      · rw [Vector.getElem?_set_self]
        rfl
      · exact Vector.getElem?_set_ne hi hj.symm
      · exact Vector.getElem?_set_ne hi hj.symm
  · rw [dif_neg hi] at h
    cases h

/-- The handlers from the state of slot 0 on. -/
def remaining (server : EpollServer) : List Handler := handlers.drop server.connections[0].state

/-- The handler is done at the event. -/
def passes (handler : Handler) (event : ReadyEvent) : Bool := event.outcome handler ≠ 0

variable {server : EpollServer}

theorem slot_eq_zero (h : server.numConnections = 0) (socketFd : Int) :
    server.slot socketFd = .ok 0 := by
  unfold slot
  rw [h]
  cases server.activeConnections.toList with
  | nil => rfl
  | cons active actives => rfl

theorem handle_of_remaining_eq_nil (h : server.numConnections = 0) (hnil : server.remaining = [])
    (event : ReadyEvent) : server.handleConnection event = .error .bytes := by
  have hnone : handlers[server.connections[0].state]? = none := by
    rw [List.getElem?_eq_none_iff]
    exact List.drop_eq_nil_iff.mp hnil
  unfold handleConnection
  rw [slot_eq_zero h, except_bind_ok, dif_pos (by decide)]
  simp only
  rw [hnone]

/-- While there are handlers left, the call returns and the state moves on as a stage does. -/
theorem exists_handle (h : server.numConnections = 0) (hne : server.remaining ≠ [])
    (event : ReadyEvent) : ∃ after, server.handleConnection event = .ok (0, after) ∧
      after.numConnections = 0 ∧ after.remaining = Stages.step passes server.remaining event := by
  have hlt : server.connections[0].state < handlers.length := by
    rw [← Nat.not_le, ← List.drop_eq_nil_iff]
    exact hne
  have hremaining : server.remaining =
      handlers[server.connections[0].state] :: handlers.drop (server.connections[0].state + 1) :=
    List.drop_eq_getElem_cons hlt
  unfold handleConnection
  rw [slot_eq_zero h, except_bind_ok, dif_pos (by decide)]
  simp only
  rw [List.getElem?_eq_getElem hlt]
  refine ⟨_, rfl, h, ?_⟩
  rw [hremaining, Stages.step]
  unfold remaining
  simp only [Vector.getElem_set_self]
  by_cases hdone : event.outcome handlers[server.connections[0].state] ≠ 0
  · have hpass : passes handlers[server.connections[0].state] event = true := decide_eq_true hdone
    rw [if_pos hdone, if_pos hpass]
  · have hpass : ¬ passes handlers[server.connections[0].state] event = true :=
      fun hpass => hdone (of_decide_eq_true hpass)
    rw [if_neg hdone, if_neg hpass]
    exact hremaining

/-! ## Runs -/

/-- Every event of the run is handled in its socket's slot. -/
def Separates (slotOf : Int → Nat) : EpollServer → List ReadyEvent → Prop
  | _, [] => True
  | server, event :: events =>
    ∃ after, Serves server event (slotOf event.socketFd) after ∧ Separates slotOf after events

/-- The sockets of the run have slots of their own, in which their events are handled. -/
def KeepsApart (server : EpollServer) (events : List ReadyEvent) : Prop :=
  ∃ slotOf : Int → Nat,
    (∀ e ∈ events, ∀ e' ∈ events, slotOf e.socketFd = slotOf e'.socketFd → e.socketFd = e'.socketFd) ∧
      Separates slotOf server events

/-- An event is handled in slot 0 while there are handlers left. -/
theorem separates_iff (h : server.numConnections = 0) (slotOf : Int → Nat) (events : List ReadyEvent) :
    Separates slotOf server events ↔
      (∀ e ∈ events, slotOf e.socketFd = 0) ∧ Stages.InTime passes server.remaining events := by
  induction events generalizing server with
  | nil => exact iff_of_true trivial ⟨fun e he => (List.not_mem_nil he).elim, Stages.inTime_nil⟩
  | cons event events ih =>
    rw [Separates, Stages.inTime_cons, List.forall_mem_cons]
    by_cases hnil : server.remaining = []
    · constructor
      · rintro ⟨after, hserves, -⟩
        have hreturned := hserves.returned
        rw [handle_of_remaining_eq_nil h hnil] at hreturned
        cases hreturned
      · rintro ⟨-, hne, -⟩
        exact absurd hnil hne
    · obtain ⟨after, hhandle, hzero, hremaining⟩ := exists_handle h hnil event
      constructor
      · rintro ⟨after', hserves, hrest⟩
        have hslot := hserves.found
        have hsame := hserves.returned
        rw [slot_eq_zero h] at hslot
        rw [hhandle] at hsame
        cases hsame
        rw [ih hzero, hremaining] at hrest
        exact ⟨⟨(Except.ok.inj hslot).symm, hrest.1⟩, hnil, hrest.2⟩
      · rintro ⟨⟨hslot, hslots⟩, -, hintime⟩
        refine ⟨after, ?_, ?_⟩
        · rw [hslot]
          exact serves_of_ok (slot_eq_zero h _) hhandle
        · rw [ih hzero, hremaining]
          exact ⟨hslots, hintime⟩

/-- **When the server keeps its clients apart**, over every run: all events are on one socket, and none
comes after the handlers of the table are done, each in its turn. -/
theorem keepsApart_iff (events : List ReadyEvent) : KeepsApart initial events ↔
    (∀ e ∈ events, ∀ e' ∈ events, e.socketFd = e'.socketFd) ∧
      Stages.InTime passes handlers events := by
  have hremaining : initial.remaining = handlers := rfl
  unfold KeepsApart
  simp only [separates_iff (show initial.numConnections = 0 from rfl), hremaining]
  constructor
  · rintro ⟨slotOf, hinj, hslots, hintime⟩
    refine ⟨fun e he e' he' => hinj e he e' he' ?_, hintime⟩
    rw [hslots e he, hslots e' he']
  · rintro ⟨hsockets, hintime⟩
    exact ⟨fun _ => 0, fun e he e' he' _ => hsockets e he e' he', fun _ _ => rfl, hintime⟩

/-- Two clients that have connected are both in slot 0. -/
theorem two_sockets_not_apart : ¬ KeepsApart initial
    [⟨5, fun handler => if handler = .sendHandshake then 0 else 1⟩,
      ⟨6, fun handler => if handler = .sendHandshake then 0 else 1⟩] := by
  rintro ⟨slotOf, hinj, hruns⟩
  have hslots := ((separates_iff rfl slotOf _).mp hruns).1
  have hsame : slotOf 5 = slotOf 6 :=
    (hslots _ List.mem_cons_self).trans (hslots _ (List.mem_cons_of_mem _ List.mem_cons_self)).symm
  have hsockets := hinj _ List.mem_cons_self _ (List.mem_cons_of_mem _ List.mem_cons_self) hsame
  exact absurd hsockets (by decide)

end EpollServer

end Fxmy

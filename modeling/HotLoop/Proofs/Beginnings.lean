import Mathlib.Tactic
import HotLoop.Tracer.Frame

/-!
# Where the journal tells of new traces

Two kinds of entries tell that a trace is begun, and only the tracer itself writes them. What the
stores narrate of their own steps is silent about it.
-/

namespace HotLoop

open Code Journal Lifecycle Trace

namespace Journal

def Entry.beginsTrace : Entry → Bool
  | .loopTraced _ _ => true
  | .bridgeTraced _ _ => true
  | _ => false

def Silent (es : List Entry) : Prop := ∀ x ∈ es, x.beginsTrace = false

namespace Silent

variable {es es' : List Entry} {x : Entry}

theorem nil : Silent [] := fun _ hx => absurd hx List.not_mem_nil

theorem cons (hx : x.beginsTrace = false) (h : Silent es) : Silent (x :: es) :=
  List.forall_mem_cons.2 ⟨hx, h⟩

theorem one (hx : x.beginsTrace = false) : Silent [x] := nil.cons hx

theorem append (h : Silent es) (h' : Silent es') : Silent (es ++ es') :=
  List.forall_mem_append.2 ⟨h, h'⟩

end Silent

end Journal

/-! ## Versions -/

namespace Versions

theorem silent_read (t : Versions) (l : Location) : Silent (t.narrateRead l) := by
  unfold narrateRead
  cases t.current? l with
  | none => exact Silent.one rfl
  | some v => exact Silent.nil

theorem silent_capture (t : Versions) (l : Location) : Silent (t.narrateCapture l) :=
  (t.silent_read l).append (Silent.one rfl)

theorem silent_invalidate (t : Versions) (l : Location) : Silent (t.narrateInvalidate l) := by
  unfold narrateInvalidate
  cases t.invalidate? l with
  | none => exact Silent.nil
  | some p => exact Silent.one rfl

theorem silent_registerAll (h : Handle) (vs : List Version) (t : Versions) :
    Silent (t.narrateRegisterAll h vs) := by
  induction vs generalizing t with
  | nil => exact Silent.nil
  | cons v vs ih =>
      unfold narrateRegisterAll
      cases t.register? v h with
      | none => exact Silent.one rfl
      | some t' => exact ih t'

theorem silent_release (h : Handle) (vs : List Version) (t : Versions) :
    Silent (t.narrateRelease h vs) := by
  induction vs generalizing t with
  | nil => exact Silent.nil
  | cons v vs ih =>
      refine Silent.append ?_ (ih _)
      unfold narrateUnregister
      split_ifs
      · exact Silent.one rfl
      · exact Silent.nil

end Versions

/-! ## The code cache -/

namespace Code.Cache

theorem silent_removeAll (hs : List Handle) (c : Cache) : Silent (c.narrateRemoveAll hs) := by
  induction hs generalizing c with
  | nil => exact Silent.nil
  | cons h hs ih =>
      unfold narrateRemoveAll
      cases c.get? h with
      | none => exact ih c
      | some a => exact (Versions.silent_release h a.guards.captured c.versions).append (ih _)

theorem silent_retire (c : Cache) (h : Handle) : Silent (c.narrateRetire h) := by
  unfold narrateRetire
  cases c.get? h with
  | none => exact Silent.nil
  | some a =>
      have hr := Versions.silent_release h a.guards.captured c.versions
      exact (hr.append (silent_removeAll _ _)).append (Silent.one rfl)

theorem silent_retireAll (hs : List Handle) (c : Cache) : Silent (c.narrateRetireAll hs) := by
  induction hs generalizing c with
  | nil => exact Silent.nil
  | cons h hs ih => exact (c.silent_retire h).append (ih _)

theorem silent_installLoop (c : Cache) (e : EntryPoint) (k : Key) (g : Guards) (ops : List Op) :
    Silent (c.narrateInstallLoop e k g ops) := by
  unfold narrateInstallLoop
  dsimp only
  cases (c.addLoop (e.site k) g ops).2 with
  | error l => exact Versions.silent_registerAll _ _ _
  | ok i =>
      refine Silent.append ?_ (Silent.one rfl)
      cases c.loop? (e.site k) with
      | none => exact Silent.nil
      | some old => exact silent_retire _ old

theorem silent_installBridge (c : Cache) (p : Handle) (i : Nat) (g : Guards) :
    Silent (c.narrateInstallBridge p i g) := by
  unfold narrateInstallBridge
  cases (c.register g).2 with
  | error l => exact Versions.silent_registerAll _ _ _
  | ok h => exact Silent.one rfl

theorem silent_enter (c : Cache) (h : Handle) : Silent (c.narrateEnter h) := by
  unfold narrateEnter
  cases (c.enter h).2 with
  | guardFailed l retired => exact (c.silent_retire h).cons rfl
  | _ => exact Silent.nil

end Code.Cache

/-! ## The monitor -/

namespace Lifecycle.Monitor

theorem silent_delivery (d : Delivery) (os : List Observer) : Silent (narrateDelivery d os) := by
  induction os with
  | nil => exact Silent.nil
  | cons o os ih =>
      refine Silent.append ?_ ?_
      · have hops : ∀ ops : List Op, Silent (ops.map .operation) := by
          intro ops x hx
          obtain ⟨op, -, rfl⟩ := List.mem_map.1 hx
          rfl
        cases o.logs with
        | false => exact Silent.nil
        | true =>
            cases d.notice with
            | compile e k h ops kind address length => exact (hops ops).cons rfl
            | _ => exact Silent.one rfl
      · split_ifs
        · exact Silent.nil
        · exact ih

theorem silent_step (m : Monitor) {x : Entry} (hx : x.beginsTrace = false) (n : Notice)
    (step : Except Fault Ledger) : Silent (m.narrateStep x n step) := by
  cases step with
  | error f => exact Silent.nil
  | ok l => exact (silent_delivery _ _).cons hx

theorem silent_report (m : Monitor) (s : Shapes) (r : Report) : Silent (m.narrate s r) := by
  cases r with
  | begin e k =>
      simp only [narrate]
      cases s.check e k with
      | error f => exact Silent.nil
      | ok s' =>
          cases m.ledger.begin e k with
          | error f => exact Silent.nil
          | ok l => exact Silent.one rfl
  | abort cause e k =>
      simp only [narrate]
      cases s.check e k with
      | error f => exact Silent.nil
      | ok s' => exact m.silent_step rfl _ _
  | loop e k h ops kind address length =>
      simp only [narrate]
      cases s.check e k with
      | error f => exact Silent.nil
      | ok s' => exact m.silent_step rfl _ _
  | bridge e p b i ops address length =>
      simp only [narrate]
      cases m.ledger.loops.find? p with
      | none => exact Silent.nil
      | some site => exact m.silent_step rfl _ _

theorem silent_retire (m : Monitor) (h : Handle) : Silent (m.narrateRetire h) := by
  unfold narrateRetire
  split_ifs
  · exact Silent.one rfl
  · exact Silent.nil

end Lifecycle.Monitor

/-! ## The tracer -/

namespace Tracer

def begun (t : Tracer) : Nat := t.journal.countP Entry.beginsTrace

theorem begun_note (es : List Entry) (t : Tracer) :
    (t.note es).begun = t.begun + es.countP Entry.beginsTrace := by
  unfold begun note
  rw [List.countP_append, List.countP_reverse, Nat.add_comm]

theorem begun_note_silent {es : List Entry} (h : Silent es) (t : Tracer) :
    (t.note es).begun = t.begun := by
  rw [begun_note, List.countP_eq_zero.2 fun x hx => by simp [h x hx], Nat.add_zero]

end Tracer

end HotLoop

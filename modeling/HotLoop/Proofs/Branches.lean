import HotLoop.Proofs.Forcing
import HotLoop.Proofs.Occasions

/-!
# Branches of a body

A body comes to branches, each in some mode. In a mode without a trace its reads change nothing and
its writes retire code at most. Once nothing compiled runs and no trace is open, it stays so to the
end of the body, and once no loop checks branches, none will come to check them before the end.
-/

namespace HotLoop

open Code Trace

namespace Mode

/-- The loop that checks the next branch, its directions, and the number of that branch. -/
def loop? : Mode → Option (Handle × List Bool × Nat)
  | .running h expected n => some (h, expected, n)
  | _ => none

theorem loop?_modifyRecording (m : Mode) (k : Recording → Recording) :
    (m.modifyRecording k).loop? = m.loop? := by
  cases m <;> rfl

theorem eq_of_loop? {m : Mode} {h : Handle} {expected : List Bool} {n : Nat}
    (hm : m.loop? = some (h, expected, n)) : m = .running h expected n := by
  cases m <;> cases hm
  rfl

end Mode

/-! ## Branches of a body -/

def Occasion.branch? : Occasion → Option (Frame × Bool)
  | .branch f cond => some (f, cond)
  | _ => none

namespace Program.Body

variable {σ α : Type} {P : Frame → Prop} {f : Frame}

def branches (b : Body σ) (f : Frame) : List (Frame × Bool) :=
  (b.occasions f).filterMap Occasion.branch?

def branchesAfter (branches : α → Frame → List (Frame × Bool)) :
    EStateM.Result Fault Frame α → List (Frame × Bool)
  | .ok a f => branches a f
  | .error _ _ => []

theorem filterMap_occasionsAfter (next : α → Body σ) (r : EStateM.Result Fault Frame α) :
    (occasionsAfter (fun a => (next a).occasions) r).filterMap Occasion.branch? =
      branchesAfter (fun a => (next a).branches) r := by
  cases r <;> rfl

theorem branches_getField (l : Location) (next : Except Error Int → Body σ) (f : Frame) :
    (getField l next).branches f =
      branchesAfter (fun a => (next a).branches) (Frame.getField l f) :=
  filterMap_occasionsAfter next _

theorem branches_setField (l : Location) (value : Int) (next : Except Error Unit → Body σ)
    (f : Frame) : (setField l value next).branches f =
      branchesAfter (fun a => (next a).branches) (Frame.setField l value f) :=
  filterMap_occasionsAfter next _

theorem branches_branch (cond : Bool) (next : Body σ) (f : Frame) :
    (branch cond next).branches f =
      (f, cond) :: branchesAfter (fun _ => next.branches) (Frame.branch cond f) := by
  rw [← filterMap_occasionsAfter]
  rfl

theorem forall_moments_op {next : α → Body σ} {r : EStateM.Result Fault Frame α} (h : P f)
    (hr : Ends (fun a f' => ∀ g ∈ (next a).moments f', P g) (fun _ f' => P f') r) :
    ∀ g ∈ f :: momentsAfter (fun a => (next a).moments) r, P g := by
  refine List.forall_mem_cons.2 ⟨h, ?_⟩
  cases r with
  | ok a f' => exact hr
  | error err f' => exact List.forall_mem_singleton.2 hr

theorem mem_moments_of_branches (b : Body σ) {x : Frame × Bool} (hx : x ∈ b.branches f) :
    x.1 ∈ b.moments f := by
  have hop : ∀ {α : Type} {next : α → Body σ} {f : Frame} {r : EStateM.Result Fault Frame α},
      (∀ a {f'}, x ∈ (next a).branches f' → x.1 ∈ (next a).moments f') →
      x ∈ branchesAfter (fun a => (next a).branches) r →
      x.1 ∈ f :: momentsAfter (fun a => (next a).moments) r := by
    intro α next f r ih hx
    cases r with
    | ok a f' => exact List.mem_cons_of_mem _ (ih a hx)
    | error err f' => cases hx
  induction b generalizing f with
  | done => cases hx
  | fail e => cases hx
  | fault err => cases hx
  | keep s next ih => exact ih hx
  | getField l next ih =>
      rw [branches_getField] at hx
      exact hop ih hx
  | setField l value next ih =>
      rw [branches_setField] at hx
      exact hop ih hx
  | branch cond next ih =>
      rw [branches_branch] at hx
      rcases List.mem_cons.1 hx with rfl | hx
      · exact List.mem_cons_self
      · exact hop (fun _ _ hx => ih hx) hx
  | peek l next ih => exact ih _ hx
  | ask next ih => exact ih _ hx

end Program.Body

/-! ## What lasts to the end of a body -/

namespace Frame

variable {P : Frame → Prop} {f f' : Frame} {g : Settings} {k : Nat}

structure Lasting (P : Frame → Prop) : Prop where
  getField : ∀ {f} l, P f → Ends (fun _ => P) (fun _ => P) (getField l f)
  setField : ∀ {f} l value, P f → Ends (fun _ => P) (fun _ => P) (setField l value f)
  branch : ∀ {f} cond, P f → Ends (fun _ => P) (fun _ => P) (branch cond f)

theorem Lasting.moments {σ : Type} (hP : Lasting P) (b : Program.Body σ) (h : P f) :
    ∀ x ∈ b.moments f, P x := by
  induction b generalizing f with
  | done => exact List.forall_mem_singleton.2 h
  | fail e => exact List.forall_mem_singleton.2 h
  | fault err => exact List.forall_mem_singleton.2 h
  | keep s next ih => exact ih h
  | getField l next ih =>
      exact Program.Body.forall_moments_op h
        ((hP.getField l h).imp (fun a _ h' => ih a h') fun _ _ h' => h')
  | setField l value next ih =>
      exact Program.Body.forall_moments_op h
        ((hP.setField l value h).imp (fun a _ h' => ih a h') fun _ _ h' => h')
  | branch cond next ih =>
      exact Program.Body.forall_moments_op h
        ((hP.branch cond h).imp (fun _ _ h' => ih h') fun _ _ h' => h')
  | peek l next ih => exact ih _ h
  | ask next ih => exact ih _ h

/-! ### In modes without a trace -/

theorem getField_of_idle (hm : f.mode.recording? = none) (l : Location) :
    ∃ r, getField l f = .ok r f := by
  rw [getField_eq, hm]
  cases f.tracer.heap.get l <;> exact ⟨_, rfl⟩

structure Retires (gone : List Handle) (f f' : Frame) : Prop where
  mode : f'.mode = f.modeWithout gone
  dead : ∀ h, f'.tracer.cache.get? h = none ↔ h ∈ gone ∨ f.tracer.cache.get? h = none

theorem setField_of_idle (hp : f.Poised g k) (hm : f.mode.recording? = none) (l : Location)
    (value : Int) : ∃ r f' gone, setField l value f = .ok r f' ∧ f.Retires gone f' := by
  have hrecord : record (.setField l) f = .ok () f := by rw [record_eq, hm]
  have hset : setField l value f = storeField l value f := by
    rw [setField_eq]
    simp only [bind, EStateM.bind, hrecord]
  have hmode : f.mode = f.modeWithout [] := by simp [modeWithout]
  rw [hset]
  unfold storeField
  cases hw : f.tracer.write l value with
  | error err => exact ⟨_, f, [], rfl, hmode, by simp⟩
  | ok p =>
      obtain ⟨t, i⟩ := p
      cases i with
      | none =>
          exact ⟨_, { f with tracer := t }, [], rfl, hmode, by simp [Tracer.cache_of_write hw]⟩
      | some i =>
          obtain ⟨versions, -, hcache⟩ := Tracer.revoke_of_write hw
          have hgone := Cache.without_retireAll i.dependents (Tracer.sound_of_write hp.sound hw)
          have hidle : (revoked i { f with tracer := t }).mode.recording? = none :=
            (recording?_modeWithout _ _).trans hm
          have hafter : afterRevocation i { f with tracer := t } =
              .ok () (revoked i { f with tracer := t }) := by
            rw [afterRevocation_eq]
            change (if (revoked i { f with tracer := t }).mode.recording?.any _ then _ else _) = _
            rw [hidle]
            rfl
          simp only [bind, EStateM.bind, hafter]
          refine ⟨_, _, (t.retireDependents i).2, rfl, rfl, fun h => ?_⟩
          have hsame : t.cache.get? h = f.tracer.cache.get? h := by rw [hcache]; rfl
          rw [← hsame, revoked, (Tracer.sameCode_forgetAll _ _).cache]
          exact hgone.dead h

/-! ### Modes in which no loop checks a branch -/

structure Out (g : Settings) (hs : List Handle) (f : Frame) : Prop where
  poised : ∃ k, f.Poised g k
  mode : f.mode = .interpreting
  dead : ∀ h ∈ hs, f.tracer.cache.get? h = none

theorem lasting_out (g : Settings) (hs : List Handle) : Lasting (Out g hs) where
  getField := fun {f} l h => by
    obtain ⟨r, hr⟩ := getField_of_idle (by rw [h.mode]; rfl) l
    rw [hr]
    exact h
  setField := fun {f} l value h => by
    obtain ⟨k, hp⟩ := h.poised
    obtain ⟨r, f', gone, hr, hf'⟩ := setField_of_idle hp (by rw [h.mode]; rfl) l value
    have hw := wrote_setField hp l value
    rw [hr] at hw ⊢
    refine ⟨⟨_, hw.poised⟩, ?_, fun j hj => (hf'.dead j).2 (Or.inr (h.dead j hj))⟩
    rw [hf'.mode, modeWithout, h.mode]
    rfl
  branch := fun {f} cond h => by
    rw [branch_eq, h.mode]
    exact h

def EndsOutside {α : Type} (r : EStateM.Result Fault Frame α) : Prop :=
  Ends (fun _ f' => f'.mode.loop? = none) (fun _ f' => f'.mode.loop? = none) r

theorem outside_abortTrace (cause : Abort) (h : f.mode.loop? = none) :
    EndsOutside (abortTrace cause f) :=
  ends_abortTrace (fun _ => h) fun _ _ => Ends.of_forall (fun _ _ => rfl) fun _ _ => rfl

theorem outside_record (op : Op) (h : f.mode.loop? = none) : EndsOutside (record op f) := by
  have hrecorded : (f.recorded op).mode.loop? = none :=
    (Mode.loop?_modifyRecording _ _).trans h
  exact ends_record (fun _ => h) (fun _ _ _ => hrecorded)
    fun _ _ _ => outside_abortTrace .tooLong hrecorded

theorem outside_modeWithout (h : f.mode.loop? = none) (gone : List Handle) :
    (f.modeWithout gone).loop? = none := by
  unfold modeWithout
  split_ifs
  · rfl
  · exact h

theorem outside_storeField (h : f.mode.loop? = none) (l : Location) (value : Int) :
    EndsOutside (storeField l value f) := by
  refine ends_storeField (fun _ _ => h) (fun _ _ => h) fun t i _ => ?_
  have hmode : (revoked i { f with tracer := t }).mode.loop? = none :=
    outside_modeWithout (f := { f with tracer := t }) h _
  exact ends_afterRevocation (fun _ => hmode) fun _ => outside_abortTrace .forcedWrite hmode

theorem outside_guardField (h : f.mode.loop? = none) (l : Location) :
    (f.guardField l).1.mode.loop? = none :=
  of_guardField (P := fun f' => f'.mode.loop? = none) h
    fun _ _ _ _ => (Mode.loop?_modifyRecording _ _).trans h

/-- No loop comes to check branches within a body. -/
theorem lasting_outside : Lasting fun f => f.mode.loop? = none where
  getField := fun l h => ends_getField_of_record (P := fun f => f.mode.loop? = none) h
    (fun op _ h => outside_record op h) fun _ _ _ _ => outside_guardField h l
  setField := fun {f} l value h => by
    rw [setField_eq]
    exact Ends.bind ((outside_record _ h).imp (fun _ _ h => outside_storeField h l value)
      fun _ _ h => h)
  branch := fun {f} cond h => by
    obtain ⟨t, m, e⟩ := f
    refine ends_branch h (fun r _ => ?_) ?_ ?_ ?_
    · exact outside_record _ ((Mode.loop?_modifyRecording _ _).trans h)
    all_goals
      rintro j expected i rfl
      cases h

end Frame

theorem Tracer.outside_countFailure (t : Tracer) (h : Handle) (i : Nat) :
    (t.countFailure h i).2.loop? = none := by
  unfold countFailure
  cases t.cache.get? h with
  | none => rfl
  | some a =>
      dsimp only
      split_ifs <;> rfl

/-- Behind a failure a bridge runs or is traced, or nothing compiled runs. -/
theorem Tracer.outside_guardFailed (t : Tracer) (h : Handle) (i : Nat) :
    (t.guardFailed h i).2.loop? = none := by
  rw [guardFailed_eq]
  cases t.cache.bridge? h i with
  | none => exact outside_countFailure t h i
  | some b =>
      dsimp only
      cases (t.cache.enter b).2 with
      | entered => rfl
      | guardFailed l gone => exact outside_countFailure _ h i
      | dead => exact outside_countFailure _ h i

end HotLoop

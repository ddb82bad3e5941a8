import HotLoop.Proofs.Flipping

/-!
# Stretches of a run

A run can be cut before any of its passes. `Passes` is one pass that ends well, `Travels` is a
stretch of such passes with the moments in them, and `Finishes` is a body that ends well. A stretch
that reaches the end of the loop is a whole run.
-/

namespace HotLoop.Program

variable {σ α : Type}

structure Point (σ : Type) where
  mode : Mode
  tracer : Tracer
  state : σ

/-! ## Bodies that end well -/

structure Body.Finishes (b : Body σ) (f : Frame) (s : σ) (fs : List Frame) (f' : Frame) (s' : σ) :
    Prop where
  exec : b.exec (f, s) = .ok (.ok ()) (f', s')
  moments : b.moments f = fs

namespace Body.Finishes

variable {f f₁ f' : Frame} {s s₁ s' : σ} {fs : List Frame} {l : Location}

theorem done (f : Frame) (s : σ) : (Body.done : Body σ).Finishes f s [f] f s := ⟨rfl, rfl⟩

theorem keep {next : Body σ} (h : next.Finishes f s₁ fs f' s') :
    (Body.keep s₁ next).Finishes f s fs f' s' := ⟨h.exec, h.moments⟩

theorem getField {next : Except Error Int → Body σ} {r : Except Error Int}
    (hop : Frame.getField l f = .ok r f₁) (h : (next r).Finishes f₁ s fs f' s') :
    (Body.getField l next).Finishes f s (f :: fs) f' s' where
  exec := (onFrame_bind hop _ s).trans h.exec
  moments := by rw [Body.moments, hop, momentsAfter, h.moments]

theorem setField {value : Int} {next : Except Error Unit → Body σ} {r : Except Error Unit}
    (hop : Frame.setField l value f = .ok r f₁) (h : (next r).Finishes f₁ s fs f' s') :
    (Body.setField l value next).Finishes f s (f :: fs) f' s' where
  exec := (onFrame_bind hop _ s).trans h.exec
  moments := by rw [Body.moments, hop, momentsAfter, h.moments]

theorem branch {cond : Bool} {next : Body σ} (hop : Frame.branch cond f = .ok () f₁)
    (h : next.Finishes f₁ s fs f' s') : (Body.branch cond next).Finishes f s (f :: fs) f' s' where
  exec := (onFrame_bind hop _ s).trans h.exec
  moments := by rw [Body.moments, hop, momentsAfter, h.moments]

end Body.Finishes

/-! ## Passes that end well -/

variable (p : Program σ)

/-- One pass leads from `x` to `y`, through the moments `fs`. -/
def Passes (x : Point σ) (fs : List Frame) (y : Point σ) : Prop :=
  p.continues x.state = true ∧ ∃ m t, p.head x.mode x.state x.tracer = .ok m t ∧
    enterBody p.entry (p.body x.state) m (t, x.state) = .ok (y.mode, .ok ()) (y.tracer, y.state) ∧
    (p.body x.state).moments ⟨t, m, p.entry⟩ = fs

inductive Travels (x : Point σ) : Nat → List Frame → Point σ → Prop
  | stay : Travels x 0 [] x
  | pass {n : Nat} {fs gs : List Frame} {y z : Point σ} (h : Travels x n fs y)
      (hp : p.Passes y gs z) : Travels x (n + 1) (fs ++ gs) z

variable {p} {x y z : Point σ} {fs gs : List Frame} {j n : Nat}

theorem passes_of_finishes {shapes : Shapes} {m : Mode} {t : Tracer} {f : Frame} {s : σ}
    (hc : p.continues x.state = true)
    (hk : x.tracer.shapes.check p.entry (p.greens x.state) = .ok shapes)
    (hm : Tracer.mergePoint p.entry (p.greens x.state) x.mode { x.tracer with shapes := shapes } =
      .ok m t)
    (hb : (p.body x.state).Finishes ⟨t, m, p.entry⟩ x.state fs f s) :
    p.Passes x fs ⟨f.mode, f.tracer, s⟩ := by
  refine ⟨hc, m, t, ?_, ?_, hb.moments⟩
  · rw [head_eq, hk]
    exact hm
  · simp only [enterBody, hb.exec]

theorem iterate_of_passes (h : p.Passes x fs y) (n : Nat) :
    p.iterate (n + 1) x.mode (x.tracer, x.state) = p.iterate n y.mode (y.tracer, y.state) := by
  obtain ⟨hc, m, t, hh, hb, -⟩ := h
  rw [iterate_succ, if_pos hc, hh]
  simp only [hb]

theorem moments_of_passes (h : p.Passes x fs y) (n : Nat) :
    p.moments (n + 1) x.mode x.tracer x.state =
      fs ++ p.moments n y.mode y.tracer y.state := by
  obtain ⟨hc, m, t, hh, hb, hfs⟩ := h
  rw [moments, if_pos hc, hh]
  simp only [hb, hfs]

/-! ## Stretches of passes -/

theorem iterate_of_travels (h : p.Travels x j fs y) (n : Nat) :
    p.iterate (j + n) x.mode (x.tracer, x.state) = p.iterate n y.mode (y.tracer, y.state) := by
  induction h generalizing n with
  | stay => rw [Nat.zero_add]
  | @pass i _ _ _ _ _ hp ih => rw [Nat.add_assoc, ih, Nat.add_comm 1 n, iterate_of_passes hp]

theorem moments_of_travels (h : p.Travels x j fs y) (n : Nat) :
    p.moments (j + n) x.mode x.tracer x.state = fs ++ p.moments n y.mode y.tracer y.state := by
  induction h generalizing n with
  | stay => rw [Nat.zero_add, List.nil_append]
  | @pass i _ _ _ _ _ hp ih =>
      rw [Nat.add_assoc, ih, Nat.add_comm 1 n, moments_of_passes hp, List.append_assoc]

theorem Travels.trans (h : p.Travels x j fs y) (h' : p.Travels y n gs z) :
    p.Travels x (j + n) (fs ++ gs) z := by
  induction h' with
  | stay => rwa [Nat.add_zero, List.append_nil]
  | pass _ hp ih =>
      rw [← Nat.add_assoc, ← List.append_assoc]
      exact ih.pass hp

/-- What holds at first, and what each of the next passes hands on, holds behind all of them. -/
theorem exists_travels {I : Nat → List Frame → Point σ → Prop} (h : I 0 [] x)
    (step : ∀ i < n, ∀ past y, I i past y → ∃ fs z, p.Passes y fs z ∧ I (i + 1) (past ++ fs) z) :
    ∃ fs y, p.Travels x n fs y ∧ I n fs y := by
  induction n with
  | zero => exact ⟨[], x, .stay, h⟩
  | succ n ih =>
      obtain ⟨fs, y, hy, hI⟩ := ih fun i hi => step i (hi.trans n.lt_succ_self)
      obtain ⟨gs, z, hz, hI'⟩ := step n n.lt_succ_self fs y hI
      exact ⟨fs ++ gs, z, hy.pass hz, hI'⟩

/-- A stretch of all the passes that a run allows itself ends where the loop is left. -/
theorem run_of_travels {t : Tracer} {s : σ} (h : p.Travels ⟨.interpreting, t, s⟩ n fs y)
    (hn : p.passes s = n) :
    p.run (t, s) = p.leave y.mode (.ok ()) (y.tracer, y.state) ∧
      p.moments (p.passes s) .interpreting t s = fs := by
  subst hn
  refine ⟨iterate_of_travels h 0, ?_⟩
  have hm := moments_of_travels h 0
  rwa [moments, List.append_nil] at hm

theorem leave_eq (p : Program σ) {m : Mode} {t t' : Tracer}
    (h : Tracer.leaveLoop p.entry m t = .ok () t') (r : Except Error Unit) (s : σ) :
    p.leave m r (t, s) = .ok r (t', s) := by
  simp only [leave, bind, EStateM.bind, onTracer, h]
  rfl

end HotLoop.Program

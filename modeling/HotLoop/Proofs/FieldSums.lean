import HotLoop.Proofs.OneField
import Mathlib.Algebra.BigOperators.Group.Finset.Basic
import Mathlib.Algebra.BigOperators.Intervals

/-!
# The sum of a field that every pass writes

The write of a pass revokes the version that its read has captured, so no trace of the sum is ever
closed: each pass that reaches the threshold begins one and gives it up. How the tracer stands
behind a number of passes is known from that number.
-/

namespace HotLoop

open Code Journal Lifecycle Trace

/-! ## The tracer between two passes -/

namespace Tracer

structure SumsField (g : Settings) (e : EntryPoint) (foo : ObjectId) (a : Int) (i : Nat)
    (t : Tracer) : Prop where
  settings : t.settings = g
  shapes : t.shapes.Allows e [.ref]
  has : t.heap.Has ⟨foo, "a"⟩ (a + i)
  cache : t.cache = { versions := .revoked ⟨foo, "a"⟩ (i + 1 - g.threshold) }
  hits : t.hits.findD (e.site (objectKey foo)) 0 = i % g.threshold
  phase : t.monitor.ledger.phase (e.site (objectKey foo)) ≠ .compiling
  quiet : t.monitor.Quiet
  notices : t.monitor.notices =
    [List.replicate (i / g.threshold) (.abort .forcedWrite e (objectKey foo))]

def TurnsField (e : EntryPoint) (foo : ObjectId) (b value : Int) (t t' : Tracer) : Prop :=
  ∃ m t₁ f, enterOrCount e (objectKey foo) t = .ok m t₁ ∧
    Frame.getField ⟨foo, "a"⟩ ⟨t₁, m, e⟩ = .ok (.ok b) f ∧
    Frame.setField ⟨foo, "a"⟩ value f = .ok (.ok ()) ⟨t', .interpreting, e⟩

theorem mod_div_succ_of_lt {n d : Nat} (h : n % d + 1 < d) :
    (n + 1) % d = n % d + 1 ∧ (n + 1) / d = n / d := by
  have hn := Nat.mod_add_div n d
  exact ((Nat.div_mod_unique (by omega)).2 ⟨by omega, h⟩).symm

theorem mod_div_succ_of_eq {n d : Nat} (h : n % d + 1 = d) :
    (n + 1) % d = 0 ∧ (n + 1) / d = n / d + 1 := by
  have hn := Nat.mod_add_div n d
  refine ((Nat.div_mod_unique (by omega)).2 ⟨?_, by omega⟩).symm
  rw [Nat.mul_add]
  omega

namespace SumsField

variable {g : Settings} {e : EntryPoint} {foo : ObjectId} {a : Int} {i : Nat} {t : Tracer}

theorem loop?_eq (h : t.SumsField g e foo a i) : t.cache.loop? (e.site (objectKey foo)) = none := by
  rw [h.cache]
  rfl

/-- A pass below the threshold is counted. Its write revokes the version if there is one. -/
theorem count (h : t.SumsField g e foo a i) (hon : g.enabled = true)
    (hlt : i % g.threshold + 1 < g.threshold) :
    ∃ t', TurnsField e foo (a + i) (a + (i + 1 : Nat)) t t' ∧ t'.SumsField g e foo a (i + 1) := by
  have hcount := countHit_below (t := t) (e := e) (k := objectKey foo)
    (by rw [h.hits, h.settings]; exact hlt)
  have henter := (enterOrCount_of_none (h.settings.symm ▸ hon) h.loop?_eq).trans hcount
  obtain ⟨t', heap, js, hset, hhas, rfl⟩ := Frame.setField_revoked
    (f := ⟨{ t with hits := t.hits.insert (e.site (objectKey foo)) _ }, .interpreting, e⟩)
    (l := ⟨foo, "a"⟩) rfl h.has (congrArg Cache.versions h.cache)
    (a + (i + 1 : Nat))
  obtain ⟨hmod, hdiv⟩ := mod_div_succ_of_lt hlt
  refine ⟨_, ⟨_, _, _, henter, Frame.getField_of_get rfl h.has.get, hset⟩, ?_⟩
  constructor
  case settings => exact h.settings
  case shapes => exact h.shapes
  case has => exact hhas
  case cache =>
    have hrevoked : (if i + 1 - g.threshold = 0 then 0 else i + 1 - g.threshold + 1) =
        i + 1 + 1 - g.threshold := by
      have hne : i + 1 ≠ g.threshold := by
        intro heq
        rw [← heq, Nat.mod_eq_of_lt i.lt_succ_self] at hlt
        exact lt_irrefl _ hlt
      split_ifs <;> omega
    rw [← hrevoked, h.cache]
  case hits =>
    rw [hmod, ← h.hits]
    exact FinMap.findD_insert_self _ _ _ _
  case phase => exact h.phase
  case quiet => exact h.quiet
  case notices =>
    rw [hdiv]
    exact h.notices

/-- The pass that reaches the threshold is traced, and its write gives the trace up. -/
theorem trace (h : t.SumsField g e foo a i) (hk : t.shapes.Accepts e (objectKey foo))
    (hon : g.enabled = true) (hfold : g.foldFields = true) (hroom : 4 ≤ g.traceLimit)
    (heq : i % g.threshold + 1 = g.threshold) :
    ∃ t', TurnsField e foo (a + i) (a + (i + 1 : Nat)) t t' ∧ t'.SumsField g e foo a (i + 1) := by
  obtain rfl := h.settings
  obtain ⟨m, t₁, js, henter, hget⟩ := Frame.getField_of_begin (e := e) (k := objectKey foo) hon
    h.loop?_eq (by rw [h.hits]; exact heq.ge) hk h.phase h.quiet h.has hfold
    (congrArg Cache.versions h.cache) (Nat.le_of_succ_le hroom)
  have habort : Ledger.abort { t.monitor.ledger with
      phases := t.monitor.ledger.phases.insert (e.site (objectKey foo)) .compiling }
      .forcedWrite e (objectKey foo) = .ok _ :=
    Ledger.abort_eq_ok_iff.2 (Or.inl ⟨FinMap.findD_insert_self _ _ _ _, rfl⟩)
  obtain ⟨t', heap, js₁, hset, hhas, rfl⟩ := Frame.setField_forced (e := e) (t := { t with
      hits := t.hits.insert (e.site (objectKey foo)) 0
      cache := { t.cache with versions := .lone ⟨foo, "a"⟩ (i + 1 - t.settings.threshold) [] }
      monitor := t.monitor.told none _
      journal := js })
    (r := {
      key := objectKey foo
      ops := [.label, .foldedField ⟨foo, "a"⟩, .guardVersion ⟨foo, "a"⟩]
      guards := .lone ⟨0, ⟨foo, "a"⟩, i + 1 - t.settings.threshold + 1⟩ })
    h.has (Versions.invalidate?_lone _ _ _) rfl
    (List.mem_singleton_self _) hroom hk habort (h.quiet.told _ _) (a + (i + 1 : Nat))
  obtain ⟨hmod, hdiv⟩ := mod_div_succ_of_eq heq
  refine ⟨_, ⟨m, t₁, _, henter, hget, hset⟩, ?_⟩
  constructor
  case settings => rfl
  case shapes => exact h.shapes
  case has => exact hhas
  case cache =>
    have hle : t.settings.threshold ≤ i + 1 := heq ▸ Nat.succ_le_succ (Nat.mod_le i _)
    rw [Nat.succ_sub hle, h.cache]
  case hits =>
    rw [hmod]
    exact FinMap.findD_insert_self _ _ _ _
  case phase =>
    refine ne_of_eq_of_ne (FinMap.findD_insert_self _ _ _ _) ?_
    nofun
  case quiet => exact (h.quiet.told _ _).told _ _
  case notices =>
    rw [hdiv, List.replicate_succ', Monitor.notices_told, Monitor.notices_told, h.notices]
    exact congrArg (fun ns => [ns ++ [_]]) (List.append_nil _)

/-- A pass leads from one count of passes to the next. -/
theorem turn (h : t.SumsField g e foo a i) (hk : t.shapes.Accepts e (objectKey foo))
    (hon : g.enabled = true) (hfold : g.foldFields = true) (ht : 1 ≤ g.threshold)
    (hroom : 4 ≤ g.traceLimit) :
    ∃ t', TurnsField e foo (a + i) (a + (i + 1 : Nat)) t t' ∧ t'.SumsField g e foo a (i + 1) := by
  rcases Nat.lt_or_eq_of_le (Nat.succ_le_of_lt (Nat.mod_lt i ht)) with hlt | heq
  · exact h.count hon hlt
  · exact h.trace hk hon hfold hroom heq

end SumsField

end Tracer

/-! ## A run -/

namespace Program

def fieldState (x : Nat) (a : Int) (i : Nat) : CountDown :=
  ⟨x - i, ∑ j ∈ Finset.range i, (a + j)⟩

theorem fieldState_succ (x : Nat) (a : Int) (i : Nat) : fieldState x a (i + 1) =
    ⟨(fieldState x a i).x - 1, (fieldState x a i).total + (a + i)⟩ := by
  simp only [fieldState, Finset.sum_range_succ, CountDown.mk.injEq, and_true]
  push_cast
  ring

/-- The field and the partial sums are words all the way. -/
def FitsFieldSum (a : Int) (x : Nat) : Prop :=
  ∀ i ≤ x, FitsWord (a + i) ∧ FitsWord (∑ j ∈ Finset.range i, (a + j))

section

variable {g : Settings} {e : EntryPoint} {foo : ObjectId} {x : Nat} {a : Int} {i : Nat}

theorem fieldSum_finishes {s : CountDown} {b : Int} {f f₁ f₂ : Frame}
    (hget : Frame.getField ⟨foo, "a"⟩ f = .ok (.ok b) f₁)
    (hset : Frame.setField ⟨foo, "a"⟩ (b + 1) f₁ = .ok (.ok ()) f₂)
    (ht : FitsWord (s.total + b)) (hb : FitsWord (b + 1)) :
    ((fieldSum e foo).body s).Finishes f s [f, f₁, f₂] f₂ ⟨s.x - 1, s.total + b⟩ := by
  refine .getField hget ?_
  simp only [Body.orFail, addWord_eq ht, addWord_eq hb, Body.orFault]
  exact .keep (.setField hset (.keep (.done _ _)))

theorem fieldSum_passes {t : Tracer} (h : t.SumsField g e foo a i) (hf : FitsFieldSum a x)
    (hi : i < x) (harity : e.arity = 1) (hon : g.enabled = true) (hfold : g.foldFields = true)
    (ht : 1 ≤ g.threshold) (hroom : 4 ≤ g.traceLimit) :
    ∃ fs t', (fieldSum e foo).Passes ⟨.interpreting, t, fieldState x a i⟩ fs
        ⟨.interpreting, t', fieldState x a (i + 1)⟩ ∧ t'.SumsField g e foo a (i + 1) := by
  obtain ⟨shapes, hcheck, hallows⟩ := h.shapes.check (k := objectKey foo) harity.symm rfl
  have h₀ : Tracer.SumsField g e foo a i { t with shapes := shapes } := { h with shapes := hallows }
  obtain ⟨t', ⟨m, t₁, f, henter, hget, hset⟩, ht'⟩ :=
    h₀.turn (Shapes.accepts_of_check hcheck) hon hfold ht hroom
  obtain ⟨ha, htotal⟩ := hf (i + 1) hi
  rw [Finset.sum_range_succ] at htotal
  have hbump : a + i + 1 = a + (i + 1 : Nat) := by push_cast; ring
  have hfinishes := fieldSum_finishes (e := e) (s := fieldState x a i) hget
    (by rw [hbump]; exact hset) htotal (by rw [hbump]; exact ha)
  have hpos : 0 < (x : Int) - i := by omega
  have hmerge := (Tracer.mergePoint_of_idle (m := .interpreting) rfl).trans henter
  have hpasses := passes_of_finishes (p := fieldSum e foo)
    (x := ⟨.interpreting, t, fieldState x a i⟩) (decide_eq_true hpos) hcheck hmerge hfinishes
  rw [← fieldState_succ] at hpasses
  exact ⟨_, t', hpasses, ht'⟩

theorem run_fieldSum_of_sums {t : Tracer} (h : t.SumsField g e foo a 0) (hf : FitsFieldSum a x)
    (harity : e.arity = 1) (hon : g.enabled = true) (hfold : g.foldFields = true)
    (ht : 1 ≤ g.threshold) (hroom : 4 ≤ g.traceLimit) :
    ∃ t', (fieldSum e foo).run (t, fieldState x a 0) = .ok (.ok ()) (t', fieldState x a x) ∧
      t'.SumsField g e foo a x := by
  obtain ⟨fs, y, htravels, t', rfl, ht'⟩ := exists_travels (p := fieldSum e foo) (n := x)
    (I := fun i _ y => ∃ t, y = ⟨.interpreting, t, fieldState x a i⟩ ∧ t.SumsField g e foo a i)
    ⟨t, rfl, h⟩ (by
      rintro i hi _ _ ⟨t, rfl, h⟩
      obtain ⟨fs, t', hpasses, ht'⟩ := fieldSum_passes h hf hi harity hon hfold ht hroom
      exact ⟨fs, _, hpasses, t', rfl, ht'⟩)
  obtain ⟨hrun, -⟩ := run_of_travels htravels (congrArg Int.toNat (sub_zero (x : Int)))
  exact ⟨t', hrun.trans (leave_eq (fieldSum e foo) (Tracer.leaveLoop_of_idle rfl) _ _), ht'⟩

end

theorem exists_allocFoo (a : Int) :
    ∃ h, allocFoo {} a = .ok (h, ⟨0⟩) ∧ h.Has ⟨⟨0⟩, "a"⟩ a := by
  have hdeclares : ObjectClass.declares "Foo" "a" "a?" = true := by decide +kernel
  obtain ⟨c, h, hmake, halloc, hhas⟩ := Heap.exists_make_alloc hdeclares a
  refine ⟨h, ?_, hhas⟩
  rw [allocFoo, hmake]
  exact halloc

/-- The sum on a new tracer, with the field at `a` and over `x` passes, adds up the values that its
own writes produce. Every `threshold` passes a trace is given up because of the write, and nothing
is ever compiled. From the first traced pass on each write revokes a version. -/
theorem run_fieldSum (id x : Nat) (a : Int) (g : Settings) (hf : FitsFieldSum a x)
    (hon : g.enabled = true) (hfold : g.foldFields = true) (ht : 1 ≤ g.threshold)
    (hroom : 4 ≤ g.traceLimit) :
    let e := fieldSumEntry id
    ∃ h foo t, allocFoo {} a = .ok (h, foo) ∧
      (fieldSum e foo).run ({ listening g with heap := h }, { x := x }) =
        .ok (.ok ()) (t, ⟨0, ∑ j ∈ Finset.range x, (a + j)⟩) ∧
      t.heap.get ⟨foo, "a"⟩ = .ok (a + x) ∧
      t.monitor.notices =
        [List.replicate (x / g.threshold) (.abort .forcedWrite e (objectKey foo))] ∧
      t.cache.liveCount = 0 ∧ t.cache.next = 1 ∧
      t.cache.versions.invalidations = x + 1 - g.threshold ∧
      t.cache.versions.tracked = if g.threshold ≤ x then 1 else 0 := by
  intro e
  obtain ⟨h, halloc, hhas⟩ := exists_allocFoo a
  have hsums : Tracer.SumsField g e ⟨0⟩ a 0 { listening g with heap := h } := by
    constructor
    case settings => rfl
    case shapes => exact fun fixed hfixed => by cases hfixed
    case has => exact (Int.add_zero a).symm ▸ hhas
    case cache =>
      rw [Nat.sub_eq_zero_of_le ht]
      rfl
    case hits => rw [Nat.zero_mod]; rfl
    case phase => nofun
    case quiet => exact quiet_listening g
    case notices => rw [Nat.zero_div]; rfl
  obtain ⟨t, hrun, ht'⟩ := run_fieldSum_of_sums hsums hf rfl hon hfold ht hroom
  have hstart : fieldState x a 0 = { x := x } := by simp [fieldState]
  refine ⟨h, ⟨0⟩, t, halloc, ?_, ht'.has.get, ht'.notices, ?_, ?_, ?_, ?_⟩
  · rw [← hstart, hrun, fieldState, sub_self]
  · rw [ht'.cache]; rfl
  · rw [ht'.cache]
  · rw [ht'.cache]; exact Versions.invalidations_revoked _ _
  · rw [ht'.cache]
    refine (Versions.tracked_revoked _ _).trans ?_
    split_ifs <;> omega

/-- Seven passes with a threshold of three give up two traces and revoke five versions. -/
theorem run_fieldSum_seven :
    let e := fieldSumEntry 0
    ∃ h foo t, allocFoo {} 100 = .ok (h, foo) ∧
      (fieldSum e foo).run ({ listening .eager with heap := h }, { x := 7 }) =
        .ok (.ok ()) (t, ⟨0, 721⟩) ∧
      t.monitor.notices =
        [[.abort .forcedWrite e (objectKey foo), .abort .forcedWrite e (objectKey foo)]] ∧
      t.cache.versions.invalidations = 5 ∧ t.cache.versions.tracked = 1 := by
  have hf : FitsFieldSum 100 7 := by
    intro i hi
    interval_cases i <;> decide
  obtain ⟨h, foo, t, halloc, hrun, -, hnotices, -, -, hinvalidations, htracked⟩ :=
    run_fieldSum 0 7 100 .eager hf rfl rfl (by decide) (by decide)
  exact ⟨h, foo, t, halloc, hrun, hnotices, hinvalidations, htracked⟩

end Program

end HotLoop

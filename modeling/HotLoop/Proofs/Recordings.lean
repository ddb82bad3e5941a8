import HotLoop.Proofs.Occurrence
import HotLoop.Proofs.Trust

/-!
# Recordings

A recording grows with each operation of a frame: a read may be folded, and is then guarded once,
and a write stays in it only if its location is not guarded. `WellFormed` says what such a recording
looks like when it is closed with a jump.
-/

namespace HotLoop

namespace Trace

namespace Op

def branchIndex? : Op → Option Nat
  | .guardBranch i _ => some i
  | _ => none

def guarded? : Op → Option Location
  | .guardVersion l => some l
  | _ => none

/-- The operation may stand behind `past`: an entry check right behind the first folded read of its
location, and a write behind no folded read of its location. -/
def Fits (past : List Op) : Op → Prop
  | .guardVersion l => ∃ before, past = before ++ [.foldedField l] ∧ .foldedField l ∉ before
  | .setField l => .foldedField l ∉ past
  | _ => True

end Op

/-- The operations `ops` are a closed trace, of a loop or of a bridge, with the guards `g`. -/
structure WellFormed (limit : Nat) (loop : Bool) (g : Guards) (ops : List Op) : Prop where
  head : ops.head? = some .label ↔ loop = true
  label : .label ∉ ops.tail
  last : ops.getLast? = some .jump
  jump : .jump ∉ ops.dropLast
  length : ops.length ≤ limit + 1
  /-- Branch guards are numbered in order, -/
  indices : ops.filterMap Op.branchIndex? = List.range (directions ops).length
  /-- and the directions are theirs by number. -/
  direction : ∀ i d, .guardBranch i d ∈ ops ↔ (directions ops)[i]? = some d
  /-- Entry checks are those of the guards, in order, and no location is checked twice. -/
  guarded : ops.filterMap Op.guarded? = g.captured.map Version.location
  nodup : (ops.filterMap Op.guarded?).Nodup
  /-- Each stands right behind the first folded read of its location. -/
  behind : ∀ past l rest, ops = past ++ .guardVersion l :: rest →
    ∃ before, past = before ++ [.foldedField l] ∧ .foldedField l ∉ before
  folded : ∀ l, .foldedField l ∈ ops → .guardVersion l ∈ ops
  /-- Nothing is written behind a folded read of it. -/
  unwritten : ∀ past l rest, ops = past ++ .setField l :: rest → .foldedField l ∉ past

section

variable {ops : List Op} {x : Op}

def Ordered (ops : List Op) : Prop := ∀ past x rest, ops = past ++ x :: rest → x.Fits past

theorem Ordered.concat (h : Ordered ops) (hx : x.Fits ops) : Ordered (ops ++ [x]) := by
  intro past y rest he
  rcases split_concat he with ⟨rfl, rfl, -⟩ | ⟨rest', -, hops⟩
  · exact hx
  · exact h past y rest' hops

def Unclosed (loop : Bool) (ops : List Op) : Prop :=
  ∃ body, ops = (if loop then [.label] else []) ++ body ∧ ∀ x ∈ body, x ≠ .label ∧ x ≠ .jump

theorem Unclosed.concat {loop : Bool} (h : Unclosed loop ops) (hl : x ≠ .label) (hj : x ≠ .jump) :
    Unclosed loop (ops ++ [x]) := by
  obtain ⟨body, rfl, hbody⟩ := h
  refine ⟨body ++ [x], List.append_assoc _ _ _, ?_⟩
  exact List.forall_mem_append.2 ⟨hbody, List.forall_mem_singleton.2 ⟨hl, hj⟩⟩

theorem filterMap_concat_of_none {β : Type} {f : Op → Option β} (h : f x = none) :
    (ops ++ [x]).filterMap f = ops.filterMap f := by
  rw [List.filterMap_append, List.filterMap_cons_none h, List.filterMap_nil, List.append_nil]

end

end Trace

open Trace

namespace Guards

variable {g g' : Guards} {v : Version} {l : Location}

theorem not_covers_of_push? (h : g.push? v = some g') : ¬ g.Covers v.location := by
  intro hc
  rw [push?, dif_pos hc] at h
  cases h

theorem covers_of_push? (h : g.push? v = some g') : g'.Covers l ↔ g.Covers l ∨ l = v.location := by
  unfold Covers
  rw [Frame.captured_push? h, List.map_append, List.mem_append, List.map_singleton,
    List.mem_singleton]

end Guards

namespace Recording

inductive Grown (loop : Bool) : Recording → Prop
  | start (k : Key) : Grown loop { key := k, ops := if loop then [.label] else [] }
  | read {r : Recording} (hr : Grown loop r) (l : Location) :
      Grown loop { r with ops := r.ops ++ [.getField l] }
  | folded {r : Recording} (hr : Grown loop r) {l : Location} (hl : r.guards.Covers l) :
      Grown loop { r with ops := r.ops ++ [.foldedField l] }
  /-- The first folded read of a location. -/
  | guarded {r : Recording} (hr : Grown loop r) {v : Version} {g : Guards}
      (hg : r.guards.push? v = some g) :
      Grown loop
        { r with
          ops := r.ops ++ [.foldedField v.location] ++ [.guardVersion v.location]
          guards := g }
  | write {r : Recording} (hr : Grown loop r) {l : Location} (hl : ¬ r.guards.Covers l) :
      Grown loop { r with ops := r.ops ++ [.setField l] }
  | branch {r : Recording} (hr : Grown loop r) (d : Bool) :
      Grown loop
        { r with ops := r.ops ++ [.guardBranch r.branches d], branches := r.branches + 1 }

namespace Grown

variable {loop : Bool} {r : Recording} {l : Location} {limit : Nat}

theorem covers_iff (h : Grown loop r) : r.guards.Covers l ↔ .foldedField l ∈ r.ops := by
  induction h with
  | start k =>
      refine iff_of_false List.not_mem_nil ?_
      cases loop <;> simp
  | read hr l' ih => simp [ih]
  | @folded r hr l' hl ih =>
      rw [ih, List.mem_append, List.mem_singleton, Op.foldedField.injEq]
      refine (or_iff_left_of_imp ?_).symm
      rintro rfl
      exact ih.1 hl
  | guarded hr hg ih => simp [Guards.covers_of_push? hg, ih]
  | write hr hl ih => simp [ih]
  | branch hr d ih => simp [ih]

theorem ordered (h : Grown loop r) : Ordered r.ops := by
  induction h with
  | start k =>
      intro past x rest he
      have hx : x ∈ past ++ x :: rest := List.mem_append_right past List.mem_cons_self
      rw [← he] at hx
      cases loop with
      | true =>
          rw [List.mem_singleton.1 hx]
          trivial
      | false => cases hx
  | read hr l ih => exact ih.concat trivial
  | folded hr hl ih => exact ih.concat trivial
  | @guarded r hr v g hg ih =>
      refine Ordered.concat (ih.concat trivial) ⟨r.ops, rfl, ?_⟩
      rw [← hr.covers_iff]
      exact Guards.not_covers_of_push? hg
  | @write r hr l hl ih =>
      refine ih.concat ?_
      change Op.foldedField l ∉ r.ops
      rw [← hr.covers_iff]
      exact hl
  | branch hr d ih => exact ih.concat trivial

theorem guarded_eq (h : Grown loop r) :
    r.ops.filterMap Op.guarded? = r.guards.captured.map Version.location := by
  induction h with
  | start k => cases loop <;> rfl
  | guarded hr hg ih =>
      simp only [List.filterMap_append, ih, Frame.captured_push? hg, List.map_append]
      simp [Op.guarded?]
  | read hr x ih | folded hr x ih | write hr x ih | branch hr x ih =>
      simp [List.filterMap_append, Op.guarded?, ih]

theorem length_directions (h : Grown loop r) : (directions r.ops).length = r.branches := by
  induction h with
  | start k => cases loop <;> rfl
  | read hr x ih | folded hr x ih | guarded hr x ih | write hr x ih | branch hr x ih =>
      simp [directions, Op.direction?, ← ih]

theorem indices (h : Grown loop r) : r.ops.filterMap Op.branchIndex? = List.range r.branches := by
  induction h with
  | start k => cases loop <;> rfl
  | branch hr d ih =>
      simp only [List.filterMap_append, ih, List.range_succ]
      rfl
  | read hr x ih | folded hr x ih | guarded hr x ih | write hr x ih =>
      simp [List.filterMap_append, Op.branchIndex?, ih]

theorem direction_iff (h : Grown loop r) (i : Nat) (d : Bool) :
    .guardBranch i d ∈ r.ops ↔ (directions r.ops)[i]? = some d := by
  induction h with
  | start k => cases loop <;> simp [directions, List.filterMap_cons, Op.direction?]
  | @branch r hr d' ih =>
      have hlen := hr.length_directions
      have hcat : directions (r.ops ++ [.guardBranch r.branches d']) = directions r.ops ++ [d'] :=
        List.filterMap_append
      rw [hcat, List.mem_append, ih, List.mem_singleton, Op.guardBranch.injEq]
      rcases Nat.lt_trichotomy i r.branches with hlt | rfl | hgt
      · rw [List.getElem?_append_left (by omega)]
        exact or_iff_left fun hi => absurd hi.1 hlt.ne
      · rw [← hlen, List.getElem?_concat_length]
        simp [eq_comm]
      · have hlong : (directions r.ops ++ [d']).length ≤ i := by
          rw [List.length_append, hlen]
          exact hgt
        rw [List.getElem?_eq_none hlong, List.getElem?_eq_none (by omega)]
        simp [hgt.ne']
  | read hr x ih | folded hr x ih | guarded hr x ih | write hr x ih =>
      simpa [directions, List.filterMap_append, List.filterMap_cons, Op.direction?] using ih

theorem unclosed (h : Grown loop r) : Unclosed loop r.ops := by
  induction h with
  | start k => exact ⟨[], (List.append_nil _).symm, List.forall_mem_nil _⟩
  | guarded hr hg ih => exact (ih.concat (by simp) (by simp)).concat (by simp) (by simp)
  | read hr x ih | folded hr x ih | write hr x ih | branch hr x ih =>
      exact ih.concat (by simp) (by simp)

theorem wellFormed (h : Grown loop r) (hlen : r.ops.length ≤ limit) :
    WellFormed limit loop r.guards (r.ops ++ [.jump]) := by
  have hordered : Ordered (r.ops ++ [Op.jump]) := h.ordered.concat trivial
  have hdirections : directions (r.ops ++ [Op.jump]) = directions r.ops :=
    filterMap_concat_of_none rfl
  have hguarded : (r.ops ++ [Op.jump]).filterMap Op.guarded? =
      r.guards.captured.map Version.location := by
    rw [filterMap_concat_of_none rfl, h.guarded_eq]
  obtain ⟨body, hbody, hplain⟩ := h.unclosed
  have hlabel : Op.label ∉ body := fun hx => (hplain _ hx).1 rfl
  have hjump : Op.jump ∉ body := fun hx => (hplain _ hx).2 rfl
  constructor
  case head =>
    rw [hbody]
    cases loop with
    | true => simp
    | false =>
        refine iff_of_false (fun he => ?_) (by simp)
        have hmem := List.mem_of_mem_head? he
        simp [hlabel] at hmem
  case label =>
    rw [hbody]
    cases loop with
    | true => simp [hlabel]
    | false =>
        intro hmem
        have hmem := List.mem_of_mem_tail hmem
        simp [hlabel] at hmem
  case last => exact List.getLast?_concat
  case jump =>
    rw [List.dropLast_concat, hbody]
    cases loop <;> simp [hjump]
  case length =>
    rw [List.length_append]
    exact Nat.succ_le_succ hlen
  case indices =>
    rw [hdirections, h.length_directions, filterMap_concat_of_none rfl, h.indices]
  case direction =>
    intro i d
    rw [hdirections, ← h.direction_iff]
    simp
  case guarded => exact hguarded
  case nodup =>
    rw [hguarded]
    exact r.guards.nodup_locations
  case behind => exact fun past l rest he => hordered past _ rest he
  case folded =>
    intro l hl
    have hl : Op.foldedField l ∈ r.ops := by simpa using hl
    have hc := h.covers_iff.2 hl
    rw [Guards.Covers, ← hguarded, List.mem_filterMap] at hc
    obtain ⟨x, hx, hxl⟩ := hc
    cases x with
    | guardVersion l' =>
        obtain rfl := Option.some.inj hxl
        exact hx
    | _ => cases hxl
  case unwritten => exact fun past l rest he => hordered past _ rest he

end Grown

end Recording

end HotLoop

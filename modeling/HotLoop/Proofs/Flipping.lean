import HotLoop.Proofs.Course
import HotLoop.Proofs.Transparency

/-!
# The count whose branch flips

The count takes its branch from one pass on, and before that pass never. So its course on a new
tracer is known from two numbers, the passes before the flip and those behind it, and what observers
hear of a whole run is decided by where the two numbers stand to the threshold and to the eagerness.
-/

namespace HotLoop

open Code Journal Lifecycle Trace

namespace Program

/-- The states in which at most `n` passes without a tracer begin. -/
def interpretedHeads {σ : Type} (p : Program σ) : Nat → Reads → σ → List σ
  | 0, _, _ => []
  | n + 1, h, s =>
    if p.continues s then
      s :: match (p.body s).interpret (h, s) with
        | .ok (.ok ()) (h, s) => p.interpretedHeads n h s
        | _ => []
    else []

/-! ## Passes of the count -/

def leap (flip i : Int) : Int := if flip ≤ i then i + 3 else i + 1

theorem lt_leap (flip i : Int) : i < leap flip i := by
  unfold leap
  split_ifs <;> omega

theorem addWord_eq {a b : Int} (h : FitsWord (a + b)) : addWord a b = .ok (a + b) := if_pos h

section

variable {limit flip i : Int} {e : EntryPoint}

/-- Below the limit nothing overflows: a pass is a branch and then two additions. -/
theorem flipping_body (hlimit : limit ≤ 0x7fffffffffffffff - 3) (hi : 1 ≤ i) (hle : i ≤ limit) :
    (flipping e limit flip).body i = .branch (decide (flip ≤ i))
      (.keep (if flip ≤ i then i + 2 else i) (.keep (leap flip i) .done)) := by
  unfold flipping leap
  dsimp only
  by_cases hf : flip ≤ i
  · have h₁ : addWord i 2 = .ok (i + 2) := addWord_eq ⟨by omega, by omega⟩
    have h₂ : addWord (i + 2) 1 = .ok (i + 2 + 1) := addWord_eq ⟨by omega, by omega⟩
    simp only [hf, decide_true, if_true, h₁, Body.orFault, h₂, add_assoc]
    rfl
  · have h₁ : addWord i 1 = .ok (i + 1) := addWord_eq ⟨by omega, by omega⟩
    simp only [hf, decide_false, Bool.false_eq_true, if_false, Body.orFault, h₁]

theorem flipping_heads (hlimit : limit ≤ 0x7fffffffffffffff - 3) (hi : 1 ≤ i) (n : Nat)
    (h : Reads) : (flipping e limit flip).interpretedHeads (n + 1) h i =
      if i ≤ limit then i :: (flipping e limit flip).interpretedHeads n h (leap flip i)
      else [] := by
  rw [interpretedHeads]
  change ite (decide (i ≤ limit) = true) _ _ = _
  by_cases hle : i ≤ limit
  · rw [if_pos hle, if_pos (decide_eq_true hle), flipping_body hlimit hi hle]
    rfl
  · rw [if_neg hle, if_neg (mt of_decide_eq_true hle)]

/-- The count only goes up. -/
theorem flipping_heads_sorted (hlimit : limit ≤ 0x7fffffffffffffff - 3) (hi : 1 ≤ i) (n : Nat)
    (h : Reads) : ((flipping e limit flip).interpretedHeads n h i).Pairwise (· < ·) ∧
      ∀ a ∈ (flipping e limit flip).interpretedHeads n h i, i ≤ a := by
  induction n generalizing i with
  | zero => exact ⟨List.Pairwise.nil, fun a ha => absurd ha List.not_mem_nil⟩
  | succ n ih =>
      rw [flipping_heads hlimit hi]
      split_ifs
      · have hlt := lt_leap flip i
        obtain ⟨hsorted, hle⟩ := ih (i := leap flip i) (by omega)
        refine ⟨List.pairwise_cons.2 ⟨fun a ha => hlt.trans_le (hle a ha), hsorted⟩, ?_⟩
        intro a ha
        rcases List.mem_cons.1 ha with rfl | ha
        · exact le_rfl
        · exact hlt.le.trans (hle a ha)
      · exact ⟨List.Pairwise.nil, fun a ha => absurd ha List.not_mem_nil⟩

theorem flipping_requests (hlimit : limit ≤ 0x7fffffffffffffff - 3) (hi : 1 ≤ i) (n : Nat)
    (h : Reads) : (flipping e limit flip).interpretedRequests n h i =
      ((flipping e limit flip).interpretedHeads n h i).map
        fun a => .branch (decide (flip ≤ a)) := by
  induction n generalizing i with
  | zero => rfl
  | succ n ih =>
      rw [flipping_heads hlimit hi, interpretedRequests]
      change ite (decide (i ≤ limit) = true) _ _ = _
      by_cases hle : i ≤ limit
      · have hlt := lt_leap flip i
        rw [if_pos (decide_eq_true hle), if_pos hle, List.map_cons, ← ih (by omega),
          flipping_body hlimit hi hle]
        rfl
      · rw [if_neg (mt of_decide_eq_true hle), if_neg hle]
        rfl

theorem flipping_enterBody (hlimit : limit ≤ 0x7fffffffffffffff - 3) (hi : 1 ≤ i)
    (hle : i ≤ limit) {m : Mode} {t : Tracer} {f : Frame}
    (hf : Frame.branch (decide (flip ≤ i)) ⟨t, m, e⟩ = .ok () f) :
    enterBody e ((flipping e limit flip).body i) m (t, i) =
      .ok (f.mode, .ok ()) (f.tracer, leap flip i) := by
  rw [flipping_body hlimit hi hle]
  dsimp only [enterBody, Body.exec]
  rw [Body.onFrame_bind hf]
  rfl

end

end Program

/-! ## Stages of the count -/

namespace Stage

def passed (g : Settings) (flip : Int) (st : Stage) (heads : List Int) : Stage :=
  heads.foldl (fun st i => st.next g.threshold g.traceEagerness (decide (flip ≤ i))) st

theorem passed_concat (g : Settings) (flip : Int) (st : Stage) (heads : List Int) (i : Int) :
    st.passed g flip (heads ++ [i]) =
      (st.passed g flip heads).next g.threshold g.traceEagerness (decide (flip ≤ i)) := by
  simp only [passed, List.foldl_append, List.foldl_cons, List.foldl_nil]

/-- On an increasing list of states the stage depends on how many of them lie on either side of the
flip. -/
theorem passed_eq_course {g : Settings} (ht : 1 ≤ g.threshold) (he : 1 ≤ g.traceEagerness)
    {flip : Int} {heads : List Int} (hs : heads.Pairwise (· < ·)) :
    (counting 0).passed g flip heads = course g.threshold g.traceEagerness
      (heads.countP (· < flip)) (heads.countP (flip ≤ ·)) := by
  induction heads using List.reverseRecOn with
  | nil => exact (if_pos ht).symm
  | append_singleton heads i ih =>
      obtain ⟨hs, -, hlt⟩ := List.pairwise_append.1 hs
      rw [passed_concat, ih hs, List.countP_append, List.countP_append]
      by_cases hf : flip ≤ i
      · have hn : ¬ i < flip := not_lt.2 hf
        simp only [List.countP_singleton, hf, hn, decide_true, decide_false, if_true,
          Bool.false_eq_true, if_false, Nat.add_zero]
        exact next_course_true he _ _
      · -- no pass can have taken the branch before
        have hi : i < flip := not_le.1 hf
        have hq : heads.countP (flip ≤ ·) = 0 := by
          refine List.countP_eq_zero.2 fun a ha => ?_
          have := hlt a ha i (List.mem_singleton_self i)
          simp only [decide_eq_true_eq]
          omega
        simp only [List.countP_singleton, hf, hi, decide_true, decide_false, if_true,
          Bool.false_eq_true, if_false, Nat.add_zero, hq]
        exact next_course_false he _

end Stage

namespace Program

theorem leave_of_stage {σ : Type} (p : Program σ) {k : Key} {g : Settings} {st : Stage} {t : Tracer}
    {m : Mode} (ht : st.At p.entry k g t) (hm : st.Fits k m)
    (hk : st.parting p.entry k ≠ [] → t.shapes.Accepts p.entry k) (s : σ) :
    ∃ t', p.leave m (.ok ()) (t, s) = .ok (.ok ()) (t', s) ∧ t'.cache = st.cache p.entry k ∧
      t'.monitor.notices = [st.notices p.entry k ++ st.parting p.entry k] := by
  obtain ⟨t', hl, ht'⟩ := ht.leave hm hk
  refine ⟨t', ?_, ht'⟩
  simp only [leave, bind, EStateM.bind, onTracer, hl]
  rfl

def flippingKey (limit : Int) : Key := ⟨[.int limit]⟩

section

variable {limit flip i : Int} {e : EntryPoint} {g : Settings} {t : Tracer} {m : Mode} {st : Stage}

/-- From a stage on, the count runs until it has passed the limit, and leaves the tracer in the
stage behind its passes. -/
theorem iterate_flipping (hlimit : limit ≤ 0x7fffffffffffffff - 3) (harity : e.arity = 1)
    (hon : g.enabled = true) (hroom : 2 ≤ g.traceLimit) (n : Nat) (h : Reads) (hi : 1 ≤ i)
    (hn : limit < i + n) (ht : st.At e (flippingKey limit) g t)
    (hm : st.Fits (flippingKey limit) m)
    (hk : st.parting e (flippingKey limit) ≠ [] → t.shapes.Accepts e (flippingKey limit)) :
    let p := flipping e limit flip
    let k := flippingKey limit
    let st' := st.passed g flip (p.interpretedHeads n h i)
    ∃ t' i', p.iterate n m (t, i) = .ok (.ok ()) (t', i') ∧ limit < i' ∧
      t'.cache = st'.cache e k ∧ t'.monitor.notices = [st'.notices e k ++ st'.parting e k] := by
  intro p k
  induction n generalizing i t m st with
  | zero =>
      obtain ⟨t', hl, ht'⟩ := p.leave_of_stage ht hm hk i
      exact ⟨t', i, hl, by simpa using hn, ht'⟩
  | succ n ih =>
      have hentry : p.entry = e := rfl
      have hgreens : p.greens i = k := rfl
      have hcontinues : p.continues i = decide (i ≤ limit) := rfl
      rw [iterate_succ, flipping_heads hlimit hi, hcontinues, hentry]
      by_cases hle : i ≤ limit
      · obtain ⟨shapes, hcheck, hallows⟩ := ht.shapes.check (k := k) harity.symm rfl
        have haccepts := Shapes.accepts_of_check hcheck
        have ht₀ : st.At e k g { t with shapes := shapes } := { ht with shapes := hallows }
        obtain ⟨m₁, t₁, f, hmerge, hbranch, hf, hfits, hshapes⟩ :=
          ht₀.turn hm hon hroom haccepts (decide (flip ≤ i))
        have hhead : p.head m i t = .ok m₁ t₁ := by
          rw [head_eq, hentry, hgreens, hcheck]
          exact hmerge
        have hbody := flipping_enterBody hlimit hi hle hbranch
        have hlt := lt_leap flip i
        obtain ⟨t', i', hrun, hend⟩ :=
          ih (i := leap flip i) (by omega) (by push_cast at hn; omega) hf hfits
            fun _ => hshapes ▸ haccepts
        rw [if_pos (decide_eq_true hle), if_pos hle, hhead]
        dsimp only
        rw [hbody]
        exact ⟨t', i', hrun, hend⟩
      · obtain ⟨t', hl, ht'⟩ := p.leave_of_stage ht hm hk i
        rw [if_neg (mt of_decide_eq_true hle), if_neg hle]
        exact ⟨t', i, hl, by omega, ht'⟩

end

end Program

def listening (g : Settings) : Tracer := { settings := g, monitor := { observers := [{}] } }

theorem reachable_listening (g : Settings) : Reachable (listening g) :=
  .perform (.addObserver {}) (.new g) trivial

theorem quiet_listening (g : Settings) : (listening g).monitor.Quiet := by
  intro o ho
  obtain rfl := List.mem_singleton.1 ho
  exact fun _ _ => rfl

theorem at_listening (g : Settings) (e : EntryPoint) (k : Key) :
    (Stage.counting 0).At e k g (listening g) where
  settings := rfl
  shapes _ hf := by cases hf
  cache := rfl
  hits := rfl
  failures := rfl
  phase := rfl
  announced := rfl
  quiet := quiet_listening g
  notices := rfl

namespace Program

theorem blind_flipping (e : EntryPoint) (limit flip i : Int) :
    ((flipping e limit flip).body i).Blind :=
  Body.blind_orFault fun _ => Body.blind_orFault fun _ => trivial

section

variable (id : Nat) {limit : Int} (flip : Int) {g : Settings}

/-- A run of the count on a new tracer ends beyond the limit, in the stage that the passes on either
side of the flip lead to. -/
theorem run_flipping_course (hlimit : limit ≤ 0x7fffffffffffffff - 3) (hon : g.enabled = true)
    (ht : 1 ≤ g.threshold) (he : 1 ≤ g.traceEagerness) (hroom : 2 ≤ g.traceLimit) :
    let p := flipping (flippingEntry id) limit flip
    let k := flippingKey limit
    let heads := p.interpretedHeads (p.passes 1) (listening g).heap.reads 1
    let j := heads.countP (· < flip)
    let st := Stage.course g.threshold g.traceEagerness j (heads.length - j)
    ∃ t i, p.run (listening g, 1) = .ok (.ok ()) (t, i) ∧ limit < i ∧
      t.cache = st.cache p.entry k ∧
      t.monitor.notices = [st.notices p.entry k ++ st.parting p.entry k] := by
  intro p k heads j st
  have hidle : (Stage.counting 0).Fits k .interpreting := rfl
  have hpasses : limit < 1 + (p.passes 1 : Int) := by
    change limit < 1 + ((limit - 1 + 1).toNat : Int)
    omega
  have hsorted : heads.Pairwise (· < ·) := (flipping_heads_sorted hlimit le_rfl _ _).1
  have hlength : heads.length = j + heads.countP (flip ≤ ·) := by
    simpa [j, heads, not_lt] using List.length_eq_countP_add_countP (· < flip) (l := heads)
  have hst : (Stage.counting 0).passed g flip heads = st := by
    have hq : heads.countP (flip ≤ ·) = heads.length - j := by omega
    rw [Stage.passed_eq_course ht he hsorted, hq]
  rw [← hst]
  exact iterate_flipping hlimit rfl hon hroom (p.passes 1) (listening g).heap.reads le_rfl hpasses
    (at_listening g p.entry k) hidle fun hp => absurd rfl hp

/-- A run of the count that ends well ends as plain interpretation does, and has asked for the
branch of each pass. -/
theorem interpret_of_run_flipping (hlimit : limit ≤ 0x7fffffffffffffff - 3) {t : Tracer} {i : Int} :
    let p := flipping (flippingEntry id) limit flip
    p.run (listening g, 1) = .ok (.ok ()) (t, i) →
      p.interpret (p.passes 1) ((listening g).heap.reads, 1) = .ok (.ok ()) (t.heap.reads, i) ∧
      p.requests (p.passes 1) .interpreting (listening g) 1 =
        (p.interpretedHeads (p.passes 1) (listening g).heap.reads 1).map
          fun a => .branch (decide (flip ≤ a)) := by
  intro p hrun
  obtain ⟨hsound, hfollows, hfits, -⟩ := orderly_of_reachable (reachable_listening g) p.entry
  have hkeyed : p.WellKeyed [.int] := fun s _ => ⟨rfl, rfl⟩
  have hallows : (listening g).shapes.Allows p.entry [.int] := fun fixed hf => by cases hf
  have hrun : p.iterate (p.passes 1) .interpreting (listening g, 1) = .ok (.ok ()) (t, i) := hrun
  have hblind := p.iterate_blind (blind_flipping _ limit flip) hkeyed (p.passes 1)
    ⟨hsound, hfollows, hfits, fun _ => quiet_listening g⟩ hallows 1
  rw [hrun] at hblind
  rcases hblind with ⟨hplain, hrequests⟩ | ⟨hover, -⟩
  · exact ⟨hplain.symm, hrequests.trans (flipping_requests hlimit le_rfl _ _)⟩
  · cases hover

end

/-- The count on a new tracer makes the passes that it makes without one, and ends beyond the limit
as it does without one. Where it makes `n` passes, `j` of them before the flip, observers hear
nothing below the threshold, and at the threshold an aborted trace. Above it they hear of one
compiled loop, then of an aborted bridge if its guard failed as often as the eagerness says, and of
one bridge if it failed more often. -/
theorem run_flipping (id : Nat) (limit flip : Int) (g : Settings)
    (hlimit : limit ≤ 0x7fffffffffffffff - 3) (hon : g.enabled = true) (ht : 1 ≤ g.threshold)
    (he : 1 ≤ g.traceEagerness) (hroom : 2 ≤ g.traceLimit) :
    let p := flipping (flippingEntry id) limit flip
    let k := flippingKey limit
    let heads := p.interpretedHeads (p.passes 1) (listening g).heap.reads 1
    let n := heads.length
    let j := heads.countP (· < flip)
    let q := n - j
    let compile : Notice :=
      .compile p.entry k ⟨1⟩ [.label, .guardBranch 0 (decide (j < g.threshold)), .jump] .loop 0 0
    ∃ t i, p.run (listening g, 1) = .ok (.ok ()) (t, i) ∧ limit < i ∧
      p.interpret (p.passes 1) ((listening g).heap.reads, 1) =
        .ok (.ok ()) (t.heap.reads, i) ∧
      p.requests (p.passes 1) .interpreting (listening g) 1 =
        heads.map (fun a => .branch (decide (flip ≤ a))) ∧
      (n < g.threshold → t.monitor.notices = [[]]) ∧
      (n = g.threshold → t.monitor.notices = [[.abort .badLoop p.entry k]]) ∧
      (g.threshold < n → j < g.threshold ∨ q < g.traceEagerness →
        t.monitor.notices = [[compile]]) ∧
      (g.threshold < n → g.threshold ≤ j → q = g.traceEagerness →
        t.monitor.notices = [[compile, .abort .bridge p.entry k]]) ∧
      (g.threshold < n → g.threshold ≤ j → g.traceEagerness < q →
        t.monitor.notices = [[compile, .bridge p.entry ⟨1⟩ ⟨2⟩ 0 [.jump] 0 0]] ∧
        (t.cache.get? ⟨2⟩).map Artifact.entries = some (q - g.traceEagerness)) ∧
      (g.threshold < n → (t.cache.get? ⟨1⟩).map Artifact.entries = some (n - g.threshold)) := by
  intro p k heads n j q compile
  obtain ⟨t, i, hrun, hi, hcache, hnotices⟩ := run_flipping_course id flip hlimit hon ht he hroom
  have hn : j + q = n := Nat.add_sub_of_le (List.countP_le_length)
  obtain ⟨hplain, hrequests⟩ := interpret_of_run_flipping id flip hlimit hrun
  refine ⟨t, i, hrun, hi, hplain, hrequests, ?below, ?aborted, ?looping, ?bridging,
    ?bridged, ?entries⟩
  case below =>
    intro hlt
    rw [hnotices, Stage.course_counting (hn.trans_lt hlt)]
    rfl
  case aborted =>
    intro heq
    rw [hnotices, Stage.course_traced (hn.trans heq)]
    rfl
  case looping =>
    intro hlt hq
    obtain ⟨f, hst⟩ := Stage.course_looping (hlt.trans_eq hn.symm) hq
    rw [hnotices, hst]
    rfl
  case bridging =>
    intro hlt hj hq
    rw [hnotices, Stage.course_bridging (hlt.trans_eq hn.symm) hj hq]
    simp only [compile, decide_eq_false (not_lt.2 hj)]
    rfl
  case bridged =>
    intro hlt hj hq
    have hst := Stage.course_bridged (hlt.trans_eq hn.symm) hj hq
    constructor
    · rw [hnotices, hst]
      simp only [compile, decide_eq_false (not_lt.2 hj)]
      rfl
    · rw [hcache, hst]
      rfl
  case entries =>
    intro hlt
    rw [hcache, Stage.entries_course (hlt.trans_eq hn.symm), hn]

/-- With the flip at 4 three of six passes take the branch, one more than it takes to compile the
bridge. -/
theorem run_flipping_bridged :
    let p := flipping (flippingEntry 0) 10 4
    ∃ t i, p.run (listening .eager, 1) = .ok (.ok ()) (t, i) ∧ 10 < i ∧
      t.monitor.notices = [[
        .compile p.entry (flippingKey 10) ⟨1⟩ [.label, .guardBranch 0 false, .jump] .loop 0 0,
        .bridge p.entry ⟨1⟩ ⟨2⟩ 0 [.jump] 0 0]] ∧
      (t.cache.get? ⟨2⟩).map Artifact.entries = some 1 ∧
      (t.cache.get? ⟨1⟩).map Artifact.entries = some 3 := by
  intro p
  obtain ⟨t, i, hrun, hi, -, -, -, -, -, -, hbridged, hentries⟩ :=
    run_flipping 0 10 4 .eager (by decide) rfl (by decide) (by decide) (by decide)
  have hheads : p.interpretedHeads (p.passes 1) (listening .eager).heap.reads 1 =
      [1, 2, 3, 4, 7, 10] := rfl
  rw [hheads] at hbridged hentries
  obtain ⟨hnotices, hbridge⟩ := hbridged (by decide) (by decide) (by decide)
  exact ⟨t, i, hrun, hi, hnotices, hbridge, hentries (by decide)⟩

end Program

end HotLoop

import HotLoop.Proofs.Branches
import HotLoop.Proofs.Growth
import HotLoop.Proofs.Tallies

/-!
# Replaying a trace

A pass that enters a loop follows the branch directions of its trace. It stays in the loop as long
as its conditions agree with them, unless a write retires the loop. At the first condition that does
not agree the guard of that branch fails, behind the last direction compiled code is left, and in
either case the loop checks no later branch of the pass.
-/

namespace HotLoop

open Code Trace

/-! ## Following a trace -/

/-- The frame runs in the live loop `h` with the directions `e`, of which `d` are left. -/
structure Frame.Follows (h : Handle) (e : List Bool) (n : Nat) (d : List Bool) (f : Frame) :
    Prop where
  mode : f.mode = .running h e n
  live : f.tracer.cache.isLive h = true
  rest : e.drop n = d

structure Frame.Lost (h : Handle) (f : Frame) : Prop where
  mode : f.mode = .interpreting
  dead : f.tracer.cache.isLive h = false

/-- How a body goes on in the loop `h` with the directions `e`, from branch `n` on, where `d` is left
of these: the branches and the moments that it comes to. -/
inductive Replay (h : Handle) (e : List Bool) :
    Nat → List Bool → List (Frame × Bool) → List Frame → Prop
  /-- A read, or a write that does not retire the loop. -/
  | step {n d f bs ms} : f.Follows h e n d → Replay h e n d bs ms → Replay h e n d bs (f :: ms)
  /-- The body ends, or a write retires the loop. -/
  | finish {n d f bs ms} : f.Follows h e n d → (∀ x ∈ bs, x.1.Lost h) → (∀ x ∈ ms, x.Lost h) →
      Replay h e n d bs (f :: ms)
  | agree {n cond d f bs ms} : f.Follows h e n (cond :: d) → Replay h e (n + 1) d bs ms →
      Replay h e n (cond :: d) ((f, cond) :: bs) (f :: ms)
  | fail {n cond d f bs ms} : f.Follows h e n ((!cond) :: d) →
      (∀ x ∈ bs, x.1.mode.loop? = none) → Replay h e n ((!cond) :: d) ((f, cond) :: bs) (f :: ms)
  | leave {n cond f bs ms} : f.Follows h e n [] → (∀ x ∈ bs, x.1.mode = .interpreting) →
      Replay h e n [] ((f, cond) :: bs) (f :: ms)

/-- The conditions of the branches that are come to while `h` is live. -/
def conditions (h : Handle) (bs : List (Frame × Bool)) : List Bool :=
  (bs.takeWhile fun x => x.1.tracer.cache.isLive h).map Prod.snd

def failures (bs : List (Frame × Bool)) : List (Handle × Nat) :=
  bs.filterMap fun x => x.1.failing? x.2

def Differs (bs d : List Bool) (k : Nat) : Prop := ∃ b, bs[k]? = some b ∧ d[k]? = some (!b)

section

variable {h : Handle} {e c d : List Bool} {a b : Bool} {n k : Nat} {f : Frame}
  {bs : List (Frame × Bool)} {ms : List Frame} {cond : Bool}

theorem differs_cons_zero : Differs (a :: c) (b :: d) 0 ↔ b = !a := by
  simp [Differs]

theorem differs_cons_succ : Differs (a :: c) (b :: d) (k + 1) ↔ Differs c d k := Iff.rfl

theorem not_differs_nil : ¬ Differs [] d k := by
  rintro ⟨b, hb, -⟩
  cases hb

theorem not_differs_of_prefix (hc : c <+: d) : ¬ Differs c d k := by
  rintro ⟨b, hb, hd⟩
  obtain ⟨rest, rfl⟩ := hc
  obtain ⟨hlt, -⟩ := List.getElem?_eq_some_iff.1 hb
  rw [List.getElem?_append_left hlt, hb] at hd
  simp at hd

theorem Frame.failing?_of_outside (hm : f.mode.loop? = none) (cond : Bool) :
    f.failing? cond = none := by
  unfold failing?
  split
  · rename_i hmode
    rw [hmode] at hm
    cases hm
  · rfl

theorem failures_of_outside (hbs : ∀ x ∈ bs, x.1.mode.loop? = none) : failures bs = [] :=
  List.filterMap_eq_nil_iff.2 fun x hx => x.1.failing?_of_outside (hbs x hx) x.2

theorem failures_of_interpreting (hbs : ∀ x ∈ bs, x.1.mode = .interpreting) : failures bs = [] :=
  failures_of_outside fun x hx => by rw [hbs x hx]; rfl

theorem conditions_cons_of_live (hf : f.tracer.cache.isLive h = true) :
    conditions h ((f, a) :: bs) = a :: conditions h bs := by
  simp [conditions, hf]

theorem conditions_of_dead (hbs : ∀ x ∈ bs, x.1.tracer.cache.isLive h = false) :
    conditions h bs = [] := by
  cases bs with
  | nil => rfl
  | cons x bs =>
      have hx := List.forall_mem_cons.1 hbs
      rw [conditions, List.takeWhile_cons_of_neg (by simp [hx.1])]
      rfl

namespace Frame.Follows

theorem idle (hf : f.Follows h e n d) : f.mode.recording? = none := by
  rw [hf.mode]
  rfl

theorem getElem? (hf : f.Follows h e n d) : e[n]? = d.head? := by
  rw [← hf.rest, List.head?_drop]

theorem failing? (hf : f.Follows h e n d) (cond : Bool) :
    f.failing? cond = if d.head? = some (!cond) then some (h, n) else none := by
  rw [Frame.failing?, hf.mode, ← hf.getElem?]

theorem failures_cons (hf : f.Follows h e n d) (hd : d.head? ≠ some (!cond)) :
    failures ((f, cond) :: bs) = failures bs := by
  rw [failures, List.filterMap_cons, hf.failing?, if_neg hd]
  rfl

theorem branch_of_agree (hf : f.Follows h e n (cond :: d)) :
    Frame.branch cond f = .ok () { f with mode := .running h e (n + 1) } := by
  rw [Frame.branch_eq, hf.mode]
  dsimp only
  rw [hf.getElem?]
  exact if_pos rfl

theorem next (hf : f.Follows h e n (cond :: d)) :
    Follows h e (n + 1) d { f with mode := .running h e (n + 1) } :=
  ⟨rfl, hf.live, by rw [← List.drop_drop, hf.rest]; rfl⟩

theorem branch_of_differs (hf : f.Follows h e n ((!cond) :: d)) :
    Frame.branch cond f = .ok () { f with
      tracer := (f.tracer.guardFailed h n).1
      mode := (f.tracer.guardFailed h n).2 } := by
  apply Frame.branch_of_failing?
  rw [hf.failing?, List.head?_cons, if_pos rfl]

theorem branch_of_end (hf : f.Follows h e n []) :
    Frame.branch cond f = .ok () { f with mode := .interpreting } := by
  rw [Frame.branch_eq, hf.mode]
  dsimp only
  rw [hf.getElem?]
  rfl

end Frame.Follows

/-! ### What a replay comes to -/

/-- At branch `i` of the pass the guard `k` of the loop fails, and no other guard of a loop fails. -/
structure FailsAt (h : Handle) (e : List Bool) (k i : Nat) (bs : List (Frame × Bool)) : Prop where
  here : ∃ f cond, bs[i]? = some (f, cond) ∧ f.mode = .running h e k ∧
    Frame.branch cond f = .ok () { f with
      tracer := (f.tracer.guardFailed h k).1
      mode := (f.tracer.guardFailed h k).2 }
  only : failures bs = [(h, k)]
  behind : ∀ x ∈ bs.drop (i + 1), x.1.mode.loop? = none

/-- At branch `i`, which has the number `n` behind the last direction, compiled code is left. -/
structure LeavesAt (h : Handle) (e : List Bool) (n i : Nat) (bs : List (Frame × Bool)) : Prop where
  here : ∃ f cond, bs[i]? = some (f, cond) ∧ f.mode = .running h e n ∧
    Frame.branch cond f = .ok () { f with mode := .interpreting }
  behind : ∀ x ∈ bs.drop (i + 1), x.1.mode = .interpreting

namespace Replay

/-- The first condition that differs is where the guard fails. -/
theorem fails (hr : Replay h e n d bs ms) (hk : Differs (conditions h bs) d k)
    (hleast : ∀ j < k, ¬ Differs (conditions h bs) d j) : FailsAt h e (n + k) k bs := by
  induction hr generalizing k with
  | step hf hr ih => exact ih hk hleast
  | finish hf hbs hms =>
      rw [conditions_of_dead fun x hx => (hbs x hx).dead] at hk
      exact absurd hk not_differs_nil
  | @agree n cond d f bs ms hf hr ih =>
      rw [conditions_cons_of_live hf.live] at hk hleast
      cases k with
      | zero => simp [differs_cons_zero] at hk
      | succ k =>
          have hrest := ih (differs_cons_succ.1 hk) fun j hj hdiffers =>
            hleast (j + 1) (Nat.succ_lt_succ hj) (differs_cons_succ.2 hdiffers)
          rw [Nat.add_right_comm] at hrest
          exact ⟨hrest.here, (hf.failures_cons (by simp)).trans hrest.only, hrest.behind⟩
  | @fail n cond d f bs ms hf hbs =>
      rw [conditions_cons_of_live hf.live] at hk hleast
      have hfail := hf.failing? cond
      rw [List.head?_cons, if_pos rfl] at hfail
      cases k with
      | zero =>
          refine ⟨⟨f, cond, rfl, hf.mode, hf.branch_of_differs⟩, ?_, hbs⟩
          rw [failures, List.filterMap_cons, hfail]
          exact congrArg _ (failures_of_outside hbs)
      | succ k => exact absurd (differs_cons_zero.2 rfl) (hleast 0 k.succ_pos)
  | leave hf hbs =>
      obtain ⟨b, -, hb⟩ := hk
      cases hb

/-- With conditions that agree and are no more than the directions, the loop is never left. -/
theorem stays (hr : Replay h e n d bs ms) (hagree : ∀ k, ¬ Differs (conditions h bs) d k)
    (hlen : (conditions h bs).length ≤ d.length) :
    failures bs = [] ∧
      ∀ x ∈ ms, x.tracer.cache.isLive h = true → ∃ n, x.mode = .running h e n := by
  induction hr with
  | @step n d f bs ms hf hr ih =>
      obtain ⟨hfail, hms⟩ := ih hagree hlen
      exact ⟨hfail, List.forall_mem_cons.2 ⟨fun _ => ⟨n, hf.mode⟩, hms⟩⟩
  | @finish n d f bs ms hf hbs hms =>
      refine ⟨failures_of_interpreting fun x hx => (hbs x hx).mode,
        List.forall_mem_cons.2 ⟨fun _ => ⟨n, hf.mode⟩, fun x hx hlive => ?_⟩⟩
      rw [(hms x hx).dead] at hlive
      cases hlive
  | @agree n cond d f bs ms hf hr ih =>
      rw [conditions_cons_of_live hf.live] at hagree hlen
      obtain ⟨hfail, hms⟩ := ih (fun k => hagree (k + 1)) (Nat.le_of_succ_le_succ hlen)
      exact ⟨(hf.failures_cons (by simp)).trans hfail,
        List.forall_mem_cons.2 ⟨fun _ => ⟨n, hf.mode⟩, hms⟩⟩
  | fail hf hbs =>
      rw [conditions_cons_of_live hf.live] at hagree
      exact absurd (differs_cons_zero.2 rfl) (hagree 0)
  | leave hf hbs =>
      rw [conditions_cons_of_live hf.live] at hlen
      exact absurd hlen (Nat.not_succ_le_zero _)

/-- With conditions that agree and are more than the directions, the loop is left behind the last
direction, and no guard fails. -/
theorem leaves (hr : Replay h e n d bs ms) (hagree : ∀ k, ¬ Differs (conditions h bs) d k)
    (hlen : d.length < (conditions h bs).length) :
    failures bs = [] ∧ LeavesAt h e (n + d.length) d.length bs := by
  induction hr with
  | step hf hr ih => exact ih hagree hlen
  | finish hf hbs hms =>
      rw [conditions_of_dead fun x hx => (hbs x hx).dead] at hlen
      exact absurd hlen (Nat.not_lt_zero _)
  | @agree n cond d f bs ms hf hr ih =>
      rw [conditions_cons_of_live hf.live] at hagree hlen
      have hrest := ih (fun k => hagree (k + 1)) (Nat.lt_of_succ_lt_succ hlen)
      rw [Nat.add_right_comm] at hrest
      exact ⟨(hf.failures_cons (by simp)).trans hrest.1, hrest.2.here, hrest.2.behind⟩
  | fail hf hbs =>
      rw [conditions_cons_of_live hf.live] at hagree
      exact absurd (differs_cons_zero.2 rfl) (hagree 0)
  | @leave n cond f bs ms hf hbs =>
      exact ⟨(hf.failures_cons (by simp)).trans (failures_of_interpreting hbs),
        ⟨f, cond, rfl, hf.mode, hf.branch_of_end⟩, hbs⟩

end Replay

/-! ### Bodies -/

/-- A write leaves a loop running, or it retires the loop. -/
theorem Frame.Retires.follows {gone : List Handle} {f' : Frame} (hr : f.Retires gone f')
    (hf : f.Follows h e n d) (hm : h ∉ gone) : f'.Follows h e n d := by
  refine ⟨?_, ?_, hf.rest⟩
  · rw [hr.mode, modeWithout, hf.mode, if_neg (by simpa [Mode.artifact?] using hm)]
  · rw [← Bool.not_eq_false, Cache.isLive_eq_false_iff, hr.dead, not_or,
      ← Cache.isLive_eq_false_iff, Bool.not_eq_false]
    exact ⟨hm, hf.live⟩

theorem Frame.Retires.out {g : Settings} {gone : List Handle} {f' : Frame}
    (hr : f.Retires gone f') (hp : ∃ k, f'.Poised g k) (hf : f.Follows h e n d) (hm : h ∈ gone) :
    f'.Out g [h] := by
  refine ⟨hp, ?_, List.forall_mem_singleton.2 ((hr.dead h).2 (Or.inl hm))⟩
  rw [hr.mode, modeWithout, hf.mode, if_pos (by simpa [Mode.artifact?] using hm)]

theorem Frame.Out.lost {g : Settings} {f : Frame} (ho : f.Out g [h]) : f.Lost h :=
  ⟨ho.mode, (Cache.isLive_eq_false_iff _ _).2 (ho.dead h (List.mem_singleton.2 rfl))⟩

namespace Program.Body

variable {σ : Type} {g : Settings}

/-- A body that begins in a loop replays its trace. -/
theorem replay (b : Body σ) (hp : f.Poised g k) (hf : f.Follows h e n d) :
    Replay h e n d (b.branches f) (b.moments f) := by
  induction b generalizing f n d k with
  | done => exact .finish hf (List.forall_mem_nil _) (List.forall_mem_nil _)
  | fail err => exact .finish hf (List.forall_mem_nil _) (List.forall_mem_nil _)
  | fault err => exact .finish hf (List.forall_mem_nil _) (List.forall_mem_nil _)
  | keep s next ih => exact ih hp hf
  | getField l next ih =>
      obtain ⟨r, hr⟩ := Frame.getField_of_idle hf.idle l
      rw [branches_getField, moments, hr]
      exact .step hf (ih r hp hf)
  | setField l value next ih =>
      obtain ⟨r, f', gone, hr, hgone⟩ := Frame.setField_of_idle hp hf.idle l value
      have hw := Frame.wrote_setField hp l value
      rw [hr] at hw
      rw [branches_setField, moments, hr]
      by_cases hm : h ∈ gone
      · have hms := (Frame.lasting_out g [h]).moments (next r) (hgone.out ⟨_, hw.poised⟩ hf hm)
        exact .finish hf (fun x hx => (hms _ (mem_moments_of_branches _ hx)).lost)
          fun x hx => (hms x hx).lost
      · exact .step hf (ih r hw.poised (hgone.follows hf hm))
  | branch cond next ih =>
      have hpoised := Frame.poised_branch hp cond
      rw [branches_branch, moments]
      cases d with
      | nil =>
          rw [hf.branch_of_end] at hpoised ⊢
          have hout : Frame.Out g [] { f with mode := .interpreting } :=
            ⟨⟨_, hpoised⟩, rfl, List.forall_mem_nil _⟩
          have hms := (Frame.lasting_out g []).moments next hout
          exact .leave hf fun x hx => (hms _ (mem_moments_of_branches next hx)).mode
      | cons direction d =>
          by_cases hd : direction = cond
          · subst hd
            rw [hf.branch_of_agree] at hpoised ⊢
            exact .agree hf (ih hpoised hf.next)
          · obtain rfl := Bool.eq_not_of_ne hd
            rw [hf.branch_of_differs]
            refine .fail hf fun x hx => ?_
            exact Frame.lasting_outside.moments next (f.tracer.outside_guardFailed h n) _
              (mem_moments_of_branches next hx)
  | peek l next ih => exact ih _ hp hf
  | ask next ih => exact ih _ hp hf

theorem steady_op {α : Type} {next : α → Body σ} {r : EStateM.Result Fault Frame α}
    (hp : Ends (fun _ f' => ∃ k, f'.Poised g k) (fun _ _ => True) r) (hs : f.Steady r)
    (hr : failures (branchesAfter (fun a => (next a).branches) r) = [])
    (ih : ∀ a {k f'}, f'.Poised g k → failures ((next a).branches f') = [] →
      ∀ x ∈ (next a).moments f', f'.tracer.Steady x.tracer) :
    ∀ x ∈ f :: momentsAfter (fun a => (next a).moments) r, f.tracer.Steady x.tracer := by
  refine forall_moments_op (Tracer.Steady.refl _) ?_
  cases r with
  | ok a f' =>
      obtain ⟨k, hp⟩ := hp
      exact fun x hx => hs.trans (ih a hp hr x hx)
  | error err f' => exact hs

/-- A body in which no guard fails counts nothing. -/
theorem steady_of_failures (b : Body σ) (hp : f.Poised g k) (hb : failures (b.branches f) = []) :
    ∀ x ∈ b.moments f, f.tracer.Steady x.tracer := by
  induction b generalizing f k with
  | done => exact List.forall_mem_singleton.2 (Tracer.Steady.refl _)
  | fail err => exact List.forall_mem_singleton.2 (Tracer.Steady.refl _)
  | fault err => exact List.forall_mem_singleton.2 (Tracer.Steady.refl _)
  | keep s next ih => exact ih hp hb
  | getField l next ih =>
      rw [branches_getField] at hb
      exact steady_op ((Frame.poised_getField hp l).imp (fun _ _ h => ⟨_, h⟩) fun _ _ _ => trivial)
        (Frame.steady_getField l f) hb ih
  | setField l value next ih =>
      rw [branches_setField] at hb
      exact steady_op
        ((Frame.wrote_setField hp l value).imp (fun _ _ h => ⟨_, h.poised⟩) fun _ _ _ => trivial)
        (Frame.steady_setField hp l value) hb ih
  | branch cond next ih =>
      rw [branches_branch] at hb
      obtain ⟨hnone, hb⟩ := List.forall_mem_cons.1 (List.filterMap_eq_nil_iff.1 hb)
      exact steady_op ((Frame.poised_branch hp cond).imp (fun _ _ h => ⟨_, h⟩) fun _ _ _ => trivial)
        (Frame.steady_branch hnone) (List.filterMap_eq_nil_iff.2 hb) fun _ => ih
  | peek l next ih => exact ih _ hp hb
  | ask next ih => exact ih _ hp hb

end Program.Body

end

/-! ## Passes that enter a loop -/

namespace Tracer

variable {e : EntryPoint} {k : Key} {m : Mode} {t : Tracer}

def Enters (m : Mode) (t : Tracer) : Prop :=
  ∀ h expected n, m = .running h expected n →
    n = 0 ∧ ∃ a, t.cache.get? h = some a ∧ expected = directions a.operations

theorem enters_of_loop? (hm : m.loop? = none) : Enters m t := by
  rintro h expected n rfl
  cases hm

theorem enters_countHit (e : EntryPoint) (k : Key) (t : Tracer) :
    Ends Enters (fun _ _ => True) (countHit e k t) := by
  rw [countHit_eq]
  dsimp only
  split_ifs
  · exact enters_of_loop? rfl
  · exact Ends.bind (Ends.of_forall (fun _ _ => enters_of_loop? rfl) fun _ _ => trivial)

theorem enters_enterOrCount (e : EntryPoint) (k : Key) (t : Tracer) :
    Ends Enters (fun _ _ => True) (enterOrCount e k t) := by
  rw [enterOrCount_eq]
  split_ifs
  · cases t.cache.loop? (e.site k) with
    | none => exact enters_countHit e k t
    | some j =>
        dsimp only
        cases hin : (t.cache.enter j).2 with
        | entered =>
            obtain ⟨a, ha, -, hc⟩ := Cache.of_enter_entered hin
            have hlive : (t.enter j).1.cache.get? j = some a.entered := by
              change (t.cache.enter j).1.get? j = _
              rw [hc, Cache.get?_entered, if_pos rfl, ha]
              rfl
            rintro h expected n hm
            obtain ⟨rfl, rfl, rfl⟩ := Mode.running.inj hm
            exact ⟨rfl, _, hlive, by rw [hlive]; rfl⟩
        | guardFailed l gone => exact enters_countHit e k _
        | dead => exact enters_countHit e k _
  · exact enters_of_loop? rfl

theorem enters_mergePoint (e : EntryPoint) (k : Key) (m : Mode) (t : Tracer) :
    Ends Enters (fun _ _ => True) (mergePoint e k m t) := by
  have hclose : ∀ close : EStateM Fault Tracer Unit,
      Ends Enters (fun _ _ => True) ((close >>= fun _ => enterOrCount e k) t) := fun close =>
    Ends.bind (Ends.of_forall (fun _ t' => enters_enterOrCount e k t') fun _ _ => trivial)
  refine ends_mergePoint (fun r _ _ => hclose _) (fun p i r _ _ => hclose _) (fun r hr _ => ?_)
    fun _ => enters_enterOrCount e k t
  rintro h expected n rfl
  cases hr

end Tracer

/-- What a body does that begins as `f`, in the loop `h` with the directions `e`: its conditions are
those of the branches that it comes to before a write retires the loop. -/
structure Replays {σ : Type} (h : Handle) (e : List Bool) (f : Frame) (b : Program.Body σ) :
    Prop where
  /-- At the first condition that differs the guard of that branch fails, and no other guard. -/
  fails : ∀ k, Differs (conditions h (b.branches f)) e k →
    (∀ j < k, ¬ Differs (conditions h (b.branches f)) e j) → FailsAt h e k k (b.branches f)
  /-- With conditions that agree, and no more than directions, the loop is not left. -/
  stays : (∀ k, ¬ Differs (conditions h (b.branches f)) e k) →
    (conditions h (b.branches f)).length ≤ e.length → failures (b.branches f) = [] ∧
      ∀ x ∈ b.moments f, x.tracer.cache.isLive h = true → ∃ n, x.mode = .running h e n
  /-- With conditions that agree, and more than directions, the loop is left behind these. -/
  leaves : (∀ k, ¬ Differs (conditions h (b.branches f)) e k) →
    e.length < (conditions h (b.branches f)).length → failures (b.branches f) = [] ∧
      LeavesAt h e e.length e.length (b.branches f)
  /-- A pass that repeats the directions, or the first of them, does not leave the loop. -/
  repeats : conditions h (b.branches f) <+: e → failures (b.branches f) = [] ∧
    ∀ x ∈ b.moments f, x.tracer.cache.isLive h = true → ∃ n, x.mode = .running h e n
  /-- Where no guard fails, nothing is counted. -/
  counted : failures (b.branches f) = [] → ∀ x ∈ b.moments f, f.tracer.Steady x.tracer

theorem replays_of_poised {σ : Type} {h : Handle} {e : List Bool} {f : Frame} {g : Settings}
    {k : Nat} (hp : f.Poised g k) (hm : f.mode = .running h e 0)
    (hlive : f.tracer.cache.isLive h = true) (b : Program.Body σ) : Replays h e f b := by
  have hr := b.replay hp ⟨hm, hlive, List.drop_zero⟩
  constructor
  case fails =>
    intro k hk hleast
    have hfail := hr.fails hk hleast
    rwa [Nat.zero_add] at hfail
  case stays => exact hr.stays
  case leaves =>
    intro hagree hlen
    have hleave := hr.leaves hagree hlen
    rwa [Nat.zero_add] at hleave
  case repeats =>
    exact fun hprefix => hr.stays (fun k => not_differs_of_prefix hprefix) hprefix.length_le
  case counted => exact b.steady_of_failures hp

/-- In all runs of all programs, and whatever their client does in between, a pass that enters a
loop follows the directions of its trace, which are the branch guards of the loop by number. -/
theorem branches_replayed (settings : Settings) (cs : List Call) :
    ∀ x ∈ heads cs ({ settings := settings } : Tracer), ∀ h e n t,
      Tracer.mergePoint x.1.entry x.2 x.1.mode x.1.tracer = .ok (.running h e n) t →
        (∃ a, t.cache.get? h = some a ∧ a.IsLoop ∧ e = directions a.operations ∧
          (settings.validate = .ok () →
            ∀ k d, e[k]? = some d ↔ Op.guardBranch k d ∈ a.operations)) ∧
        ∀ {σ : Type} (b : Program.Body σ), Replays h e ⟨t, .running h e n, x.1.entry⟩ b := by
  intro x hx h e n t hrun
  obtain ⟨-, hheads, -⟩ := poised_throughout settings cs
  obtain ⟨⟨k, hp⟩, hk⟩ := hheads x hx
  have hpoised := Tracer.poised_mergePoint hp hk
  have henters := Tracer.enters_mergePoint x.1.entry x.2 x.1.mode x.1.tracer
  rw [hrun] at hpoised henters
  obtain ⟨rfl, a, ha, rfl⟩ := henters h e n rfl
  refine ⟨⟨a, ha, (hpoised.fits.2 a ha).1, rfl, fun hv k d => ?_⟩, fun b => ?_⟩
  · obtain ⟨-, hgrown, -⟩ := growing_throughout settings hv cs
    obtain ⟨j, -, hg⟩ := hgrown x hx
    have hgrowing := Tracer.persists_growing.mergePoint x.1.entry x.2 hg
    rw [hrun] at hgrowing
    exact ((hgrowing.wellFormed h a ha).direction k d).symm
  · have hframe : Frame.Poised settings k ⟨t, .running h (directions a.operations) 0, x.1.entry⟩ :=
      hpoised
    exact replays_of_poised hframe rfl ((Cache.isLive_iff _ _).2 ⟨a, ha⟩) b

/-- The count flips in the pass behind two that were run compiled. -/
theorem branches_replayed_flips :
    ∃ x ∈ heads flips ({ settings := { threshold := 2, traceEagerness := 2 } } : Tracer), ∃ t,
      Tracer.mergePoint x.1.entry x.2 x.1.mode x.1.tracer = .ok (.running ⟨1⟩ [false] 0) t ∧
      failures (((Program.flipping (Program.flippingEntry 0) 9 4).body 4).branches
        ⟨t, .running ⟨1⟩ [false] 0, x.1.entry⟩) = [(⟨1⟩, 0)] := by
  have hrun : ((heads flips
      ({ settings := { threshold := 2, traceEagerness := 2 } } : Tracer))[4]?.any fun x =>
        decide (Ends (fun m t => m.loop? = some (⟨1⟩, [false], 0) ∧ conditions ⟨1⟩
            (((Program.flipping (Program.flippingEntry 0) 9 4).body 4).branches
              ⟨t, m, x.1.entry⟩) = [true])
          (fun _ _ => False) (Tracer.mergePoint x.1.entry x.2 x.1.mode x.1.tracer))) = true := by
    decide +kernel
  obtain ⟨x, hx, hends⟩ := (Option.any_eq_true _ _).1 hrun
  have hends := of_decide_eq_true hends
  cases hmerge : Tracer.mergePoint x.1.entry x.2 x.1.mode x.1.tracer with
  | error err t =>
      rw [hmerge] at hends
      exact hends.elim
  | ok m t =>
      rw [hmerge] at hends
      obtain ⟨hm, hconditions⟩ := hends
      obtain rfl := Mode.eq_of_loop? hm
      have hmem := List.mem_of_getElem? hx
      obtain ⟨-, hreplays⟩ := branches_replayed _ flips x hmem _ _ _ t hmerge
      refine ⟨x, hmem, t, hmerge, ((hreplays _).fails 0 ?_ (by simp)).only⟩
      exact ⟨true, by rw [hconditions]; rfl, rfl⟩

end HotLoop

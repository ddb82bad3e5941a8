import HotLoop.Program.Bundled
import HotLoop.Proofs.Trust

/-!
# Running compiled code at every moment

The invariant of the previous file is carried along the moments of a body, of a run, and of all that
a client does. What it says of a moment at which compiled code runs is the soundness of folding
quasi-immutable reads.
-/

namespace HotLoop

open Code Lifecycle

def Along (past : List Frame) : List Frame → Prop
  | [] => True
  | f :: fs => f.KeptAfter past ∧ Along (past ++ [f]) fs

theorem along_append {past fs gs : List Frame} :
    Along past (fs ++ gs) ↔ Along past fs ∧ Along (past ++ fs) gs := by
  induction fs generalizing past with
  | nil => simp [Along]
  | cons f fs ih =>
      rw [List.cons_append, Along, Along, ih, List.append_assoc, List.singleton_append, and_assoc]

theorem Along.getElem? {past fs : List Frame} (h : Along past fs) {k : Nat} {f : Frame}
    (hf : fs[k]? = some f) : f.KeptAfter (past ++ fs.take k) := by
  induction fs generalizing past k with
  | nil => cases hf
  | cons g fs ih =>
      obtain ⟨hg, hfs⟩ := h
      cases k with
      | zero =>
          obtain rfl := Option.some.inj hf
          rw [List.take_zero, List.append_nil]
          exact hg
      | succ k =>
          have hk := ih hfs hf
          rw [List.append_assoc, List.singleton_append] at hk
          exact hk

namespace Program

variable {σ α : Type} {past : List Frame}

/-! ## Bodies -/

def BodyKept (past ms : List Frame)
    (r : EStateM.Result Fault (Frame × σ) (Except Error Unit)) : Prop :=
  Along past ms ∧ Ends
    (fun _ fs => Kept (past ++ ms) fs.1.tracer.heap fs.1.tracer.cache fs.1.mode ∧
      Tracer.Shown (past ++ ms) fs.1.mode)
    (fun _ fs => Kept (past ++ ms) fs.1.tracer.heap fs.1.tracer.cache .interpreting) r

theorem bodyKept_end {f : Frame} (hk : f.KeptAfter past) (r : Except Error Unit) (s : σ) :
    BodyKept past [f] (.ok r (f, s)) :=
  ⟨⟨hk, trivial⟩, hk.append f, fun _ hv =>
    ⟨f, List.mem_append_right _ (List.mem_singleton.2 rfl), hv⟩⟩

theorem bodyKept_fault {f : Frame} (hk : f.KeptAfter past) (e : Fault) (s : σ) :
    BodyKept past [f] (.error e (f, s)) :=
  ⟨⟨hk, trivial⟩, (hk.append f).within (Mode.within_interpreting _)⟩

theorem bodyKept_op {op : EStateM Fault Frame α} {next : α → Body σ} {f : Frame} {s : σ}
    (hop : Ends (fun _ f' => f'.KeptAfter (past ++ [f])) (fun _ f' => f'.KeptAfter (past ++ [f]))
      (op f))
    (hk : f.KeptAfter past)
    (ih : ∀ a f', f'.KeptAfter (past ++ [f]) →
      BodyKept (past ++ [f]) ((next a).moments f') ((next a).exec (f', s))) :
    BodyKept past (f :: Body.momentsAfter (fun a => (next a).moments) (op f))
      ((Body.onFrame op >>= fun a => (next a).exec) (f, s)) := by
  simp only [bind, EStateM.bind, Body.onFrame]
  cases ho : op f with
  | ok a f' =>
      rw [ho] at hop
      obtain ⟨ha, he⟩ := ih a f' hop
      rw [List.append_assoc, List.singleton_append] at he
      exact ⟨⟨hk, ha⟩, he⟩
  | error e f' =>
      rw [ho] at hop
      obtain ⟨ha, he⟩ := bodyKept_fault hop e s
      rw [List.append_assoc, List.singleton_append] at he
      exact ⟨⟨hk, ha⟩, he⟩

theorem bodyKept_exec (b : Body σ) {f : Frame} (s : σ) (hk : f.KeptAfter past) :
    BodyKept past (b.moments f) (b.exec (f, s)) := by
  induction b generalizing past f s with
  | done => exact bodyKept_end hk (.ok ()) s
  | fail e => exact bodyKept_end hk (.error e) s
  | fault e => exact bodyKept_fault hk e s
  | keep s' next ih => exact ih s' hk
  | getField l next ih =>
      exact bodyKept_op (Frame.kept_getField l (hk.append f)) hk fun a f' hk' => ih a s hk'
  | setField l value next ih =>
      exact bodyKept_op (Frame.kept_setField l value (hk.append f)) hk fun a f' hk' => ih a s hk'
  | branch cond next ih =>
      exact bodyKept_op (Frame.kept_branch cond (hk.append f)) hk fun _ f' hk' => ih s hk'
  | peek l next ih => exact ih (f.tracer.heap.get l) s hk
  | ask next ih => exact ih f.activity s hk

/-! ## Runs -/

def RunKept (past ms : List Frame)
    (r : EStateM.Result Fault (Tracer × σ) (Except Error Unit)) : Prop :=
  Along past ms ∧ Ends
    (fun _ ts => Kept (past ++ ms) ts.1.heap ts.1.cache .interpreting)
    (fun _ ts => Kept (past ++ ms) ts.1.heap ts.1.cache .interpreting) r

theorem runKept_leave (p : Program σ) {m : Mode} {t : Tracer} (r : Except Error Unit) (s : σ)
    (hk : Kept past t.heap t.cache m) (hs : Tracer.Shown past m) :
    RunKept past [] (p.leave m r (t, s)) := by
  have hl := (Tracer.persists_kept past).leaveLoop p.entry ⟨hk, hs⟩
  refine ⟨trivial, ?_⟩
  rw [List.append_nil]
  simp only [leave, bind, EStateM.bind, onTracer]
  cases he : Tracer.leaveLoop p.entry m t with
  | ok _ t' =>
      rw [he] at hl
      exact hl.1
  | error e t' =>
      rw [he] at hl
      exact hl.1

theorem kept_head (p : Program σ) {m : Mode} {t : Tracer} (s : σ)
    (hk : Kept past t.heap t.cache m) (hs : Tracer.Shown past m) :
    Ends (fun m' t' => Kept past t'.heap t'.cache m' ∧ Tracer.Shown past m')
      (fun _ t' => Kept past t'.heap t'.cache .interpreting) (p.head m s t) := by
  have hP := Tracer.persists_kept past
  have hcheck := hP.checkKey p.entry (p.greens s) ⟨hk, hs⟩
  refine Ends.bind (hcheck.imp (fun _ t' ht => ?_) fun _ t' ht => (hP.stop ht).1)
  exact (hP.mergePoint p.entry (p.greens s) ht).imp (fun _ _ h => h) fun _ _ h => h.1

theorem runKept_iterate (p : Program σ) (n : Nat) {m : Mode} {t : Tracer} {s : σ}
    (hk : Kept past t.heap t.cache m) (hs : Tracer.Shown past m) :
    RunKept past (p.moments n m t s) (p.iterate n m (t, s)) := by
  induction n generalizing past m t s with
  | zero => exact runKept_leave p (.ok ()) s hk hs
  | succ n ih =>
      rw [iterate_succ, moments]
      split_ifs
      · have hh := kept_head p s hk hs
        cases hm : p.head m s t with
        | error e t' =>
            rw [hm] at hh
            refine ⟨trivial, ?_⟩
            rw [List.append_nil]
            exact hh
        | ok m' t' =>
            rw [hm] at hh
            have hb := bodyKept_exec (p.body s) s (f := ⟨t', m', p.entry⟩) hh.1
            obtain ⟨ha, he⟩ := hb
            simp only [enterBody]
            cases hx : (p.body s).exec (⟨t', m', p.entry⟩, s) with
            | error e fs =>
                rw [hx] at he
                refine ⟨?_, ?_⟩
                · rw [List.append_nil]
                  exact ha
                · rw [List.append_nil]
                  exact he
            | ok r fs =>
                rw [hx] at he
                obtain ⟨f', s'⟩ := fs
                cases r with
                | ok _ =>
                    obtain ⟨ha', he'⟩ := ih he.1 he.2
                    refine ⟨along_append.2 ⟨ha, ha'⟩, ?_⟩
                    rw [← List.append_assoc]
                    exact he'
                | error e =>
                    obtain ⟨-, he'⟩ := runKept_leave p (.error e) s' he.1 he.2
                    rw [List.append_nil] at he'
                    refine ⟨?_, ?_⟩
                    · rw [List.append_nil]
                      exact ha
                    · rw [List.append_nil]
                      exact he'
      · exact runKept_leave p (.ok ()) s hk hs

theorem runKept_run (p : Program σ) {t : Tracer} (s : σ)
    (hk : Kept past t.heap t.cache .interpreting) :
    RunKept past (p.moments (p.passes s) .interpreting t s) (p.run (t, s)) :=
  runKept_iterate p (p.passes s) hk fun _ hv =>
    absurd hv (Mode.not_guards_of_recording? rfl _)

end Program

/-! ## Clients -/

variable {past : List Frame}

theorem kept_setField {t t' : Tracer} {l : Location} {value : Int}
    (hk : Kept past t.heap t.cache .interpreting) (hw : t.setField l value = .ok t') :
    Kept past t'.heap t'.cache .interpreting := by
  unfold Tracer.setField at hw
  cases ho : t.write l value with
  | error e =>
      rw [ho] at hw
      cases hw
  | ok p =>
      obtain ⟨t₁, i⟩ := p
      rw [ho] at hw
      cases i with
      | none =>
          obtain rfl := Except.ok.inj hw
          exact Tracer.kept_write hk ho
      | some i =>
          obtain rfl := Except.ok.inj hw
          exact Tracer.kept_retired hk ho (Mode.Within.refl _) fun _ _ => trivial

theorem kept_perform (c : Call) {t : Tracer} (hk : Kept past t.heap t.cache .interpreting) :
    Along past (c.moments t) ∧
      Kept (past ++ c.moments t) (c.perform t).heap (c.perform t).cache .interpreting := by
  cases c with
  | run p s =>
      obtain ⟨ha, he⟩ := Program.runKept_run p s hk
      refine ⟨ha, ?_⟩
      simp only [Call.perform]
      cases hr : p.run (t, s) with
      | ok r ts =>
          rw [hr] at he
          exact he
      | error e ts =>
          rw [hr] at he
          exact he
  | setField l value =>
      simp only [Call.perform, Call.moments, List.append_nil]
      refine ⟨trivial, ?_⟩
      cases hw : t.setField l value with
      | error e => exact hk
      | ok t' => exact kept_setField hk hw
  | write l value =>
      simp only [Call.perform, Call.moments, List.append_nil]
      refine ⟨trivial, ?_⟩
      cases hw : t.write l value with
      | error e => exact hk
      | ok p => exact Tracer.kept_write hk hw
  | alloc c values =>
      simp only [Call.perform, Call.moments, List.append_nil]
      refine ⟨trivial, ?_⟩
      cases ha : t.heap.alloc c values with
      | error e => exact hk
      | ok p =>
          exact hk.evolve (.alloc ha t.cache.versions) hk.sound (fun _ a ha => ⟨a, ha, rfl⟩)
            (Mode.Within.refl _) trivial
  | addObserver o =>
      simp only [Call.perform, Call.moments, List.append_nil]
      exact ⟨trivial, hk⟩

theorem along_moments (cs : List Call) {t : Tracer}
    (hk : Kept past t.heap t.cache .interpreting) : Along past (moments cs t) := by
  induction cs generalizing past t with
  | nil => trivial
  | cons c cs ih =>
      obtain ⟨ha, hk'⟩ := kept_perform c hk
      exact along_append.2 ⟨ha, ih hk'⟩

theorem kept_new (settings : Settings) :
    Kept [] (Tracer.heap { settings := settings }) (Tracer.cache { settings := settings })
      .interpreting where
  sound := Cache.sound_empty 0
  assured := fun f hf => absurd hf List.not_mem_nil
  recorded := fun v hv => absurd hv (Mode.not_guards_of_recording? rfl v)
  shown := fun j a ha => by cases ha
  backed := trivial

/-- What an artifact assumes is so: its guards are current, and each guarded location has the value
that it had at the earlier moments at which an open trace guarded it. The first of them is the one
behind the read that captured the guard. -/
def Frame.Trusts (f : Frame) (past : List Frame) (a : Artifact) : Prop :=
  ∀ v ∈ a.guards.captured, f.tracer.cache.versions.IsCurrent v ∧
    ∃ x, f.tracer.heap.get v.location = .ok x ∧ (∃ e ∈ past, e.mode.Guards v) ∧
      ∀ e ∈ past, e.mode.Guards v → e.tracer.heap.get v.location = .ok x

theorem trusts_of_current {f : Frame} {h : Handle} {a : Artifact} (hk : f.KeptAfter past)
    (ha : f.tracer.cache.get? h = some a)
    (hg : ∀ v ∈ a.guards.captured, f.tracer.cache.versions.IsCurrent v) : f.Trusts past a := by
  intro v hv
  obtain ⟨e, he, hev⟩ := hk.shown h a ha v hv
  obtain ⟨x, hx, hpast⟩ := (hk.assured e he v hev).value
  exact ⟨hg v hv, x, hx, ⟨e, he, hev⟩, hpast (hg v hv)⟩

/-- At each moment at which compiled code runs, whatever a client did before, the artifact is live
and its assumptions are so, and the same goes for the loop that a running bridge hangs off. -/
theorem running_code_trusted (settings : Settings) (cs : List Call) (k : Nat) (f : Frame)
    (h : Handle) (hf : (moments cs { settings := settings })[k]? = some f)
    (hm : f.mode.artifact? = some h) :
    ∃ a, f.tracer.cache.get? h = some a ∧
      f.Trusts ((moments cs { settings := settings }).take k) a ∧
      ((∃ expected n, f.mode = .running h expected n) ∧ a.kind = .loop ∨
        f.mode = .runningBridge h ∧ ∃ p i pa, a.kind = .bridge p i ∧
          f.tracer.cache.get? p = some pa ∧ pa.kind = .loop ∧
          f.Trusts ((moments cs { settings := settings }).take k) pa) := by
  have hk := (along_moments cs (kept_new settings)).getElem? hf
  rw [List.nil_append] at hk
  have hb := hk.backed
  cases hmode : f.mode with
  | running j expected n =>
      rw [hmode] at hm hb
      obtain rfl := Option.some.inj hm
      obtain ⟨a, ha, hak, hg⟩ := hb
      exact ⟨a, ha, trusts_of_current hk ha hg, Or.inl ⟨⟨expected, n, rfl⟩, hak⟩⟩
  | runningBridge b =>
      rw [hmode] at hm hb
      obtain rfl := Option.some.inj hm
      obtain ⟨a, p, i, pa, ha, hak, hg, hpa, hpk, -, hpg⟩ := hb
      exact ⟨a, ha, trusts_of_current hk ha hg, Or.inr ⟨rfl, p, i, pa, hak, hpa, hpk,
        trusts_of_current hk hpa hpg⟩⟩
  | _ =>
      rw [hmode] at hm
      cases hm

/-- A weighted sum in which every pass behind the first runs compiled. -/
def weightedSum : List Call :=
  let weighted : ObjectClass :=
    { name := "Config"
      fields := ["scale"]
      declared := ⟨FinMap.empty.insert "scale" Field.Flags.quasiImmutable⟩
      declared_fields := by decide }
  [.alloc weighted [("scale", 3)],
    .run (Program.scaledSum (Program.scaledSumEntry 0) ⟨0⟩ 2 10 7) {}]

theorem running_code_trusted_weightedSum :
    ∃ f a, (moments weightedSum { settings := { threshold := 1 } })[3]? = some f ∧
      f.mode.artifact? = some ⟨1⟩ ∧ f.tracer.cache.get? ⟨1⟩ = some a ∧
      f.Trusts ((moments weightedSum { settings := { threshold := 1 } }).take 3) a := by
  have hr : ((moments weightedSum { settings := { threshold := 1 } })[3]?.bind fun f =>
      f.mode.artifact?) = some ⟨1⟩ := by decide +kernel
  obtain ⟨f, hf, hm⟩ := Option.bind_eq_some_iff.1 hr
  obtain ⟨a, ha, ht, -⟩ := running_code_trusted { threshold := 1 } weightedSum 3 f ⟨1⟩ hf hm
  exact ⟨f, a, hf, hm, ha, ht⟩

end HotLoop

import HotLoop.Proofs.Books
import HotLoop.Proofs.Operations

/-!
# Every operation keeps books

The loop head and the operations of a frame, in whatever mode, do nothing to the books but strokes
of `Books.Move`, and so does an operation that an observer breaks off. What an operation does is
read off the journal, the counters and the stores that it writes.
-/

namespace HotLoop

open Code Journal Lifecycle Trace

namespace Tracer

variable {α : Type} {q : Prop} {e : EntryPoint} {t t' : Tracer} {m m' : Mode} {k : Key} {l : Ledger}

theorem Orderly.leads (h : t.Orderly q e m) {b : Books} (hm : (t.books m).Move b) :
    (t.books m).Leads b :=
  Relation.ReflTransGen.single ⟨h.sound, h.follows.sound, hm⟩

theorem Orderly.turn (h : t.Orderly q e m) (hm : m.recording? = none) (hm' : m'.recording? = none) :
    (t.books m).Leads (t.books m') :=
  h.leads (.turn _ m' hm hm')

/-- The books are behind `b` with no trace open, unless a bridge could not be counted. -/
def Pauses (b : Books) (err : Fault) (t : Tracer) : Prop :=
  err ≠ .countOverflow → b.Leads (t.books .interpreting)

theorem Pauses.behind {b b' : Books} {err : Fault} (h : b.Leads b') (hp : Pauses b' err t) :
    Pauses b err t := fun he => h.trans (hp he)

def Rests (b : Books) (r : EStateM.Result Fault Tracer α) : Prop :=
  Ends (fun _ t => b.Leads (t.books .interpreting)) (Pauses b) r

def Resumes (b : Books) (r : EStateM.Result Fault Tracer Mode) : Prop :=
  Ends (fun m t => b.Leads (t.books m)) (Pauses b) r

theorem Rests.behind {b b' : Books} {r : EStateM.Result Fault Tracer α} (h : b.Leads b')
    (hr : Rests b' r) : Rests b r :=
  Ends.imp hr (fun _ _ => h.trans) fun _ _ => Pauses.behind h

theorem Resumes.behind {b b' : Books} {r : EStateM.Result Fault Tracer Mode} (h : b.Leads b')
    (hr : Resumes b' r) : Resumes b r :=
  Ends.imp hr (fun _ _ => h.trans) fun _ _ => Pauses.behind h

/-! ## What is read off -/

theorem leads_books {b : Books} {c : Cache} {failures : FinMap (Handle × Nat) Nat} {n : Nat}
    (h : b.Leads ⟨c, l, failures, n, m⟩) (hc : t.cache = c) (hl : t.monitor.ledger = l)
    (hf : t.failures = failures) (hn : t.begun = n) : b.Leads (t.books m) := by
  unfold books
  rw [hc, hl, hf, hn]
  exact h

theorem books_note {es : List Entry} (hs : Silent es) (t : Tracer) (m : Mode) :
    (t.note es).books m = t.books m := by
  unfold books
  rw [begun_note_silent hs]
  rfl

theorem report_keeps (r : Report) (t : Tracer) :
    Ends (fun _ t' => t'.failures = t.failures ∧ t'.begun = t.begun)
      (fun _ t' => t'.failures = t.failures ∧ t'.begun = t.begun) (report r t) := by
  have hn := begun_note_silent (t.monitor.silent_report t.shapes r) t
  rw [report_eq]
  unfold onMonitor
  cases Monitor.take r ((t.note (t.monitor.narrate t.shapes r)).shapes,
    (t.note (t.monitor.narrate t.shapes r)).monitor) with
  | ok a s => exact ⟨rfl, hn⟩
  | error f s => exact ⟨rfl, hn⟩

theorem forgetAll_keeps (hs : List Handle) (t : Tracer) :
    (t.forgetAll hs).failures = t.failures.filterKeys (fun k => decide (k.1 ∉ hs)) ∧
      (t.forgetAll hs).begun = t.begun := by
  have hfold : ∀ t₀ : Tracer, (hs.foldl forget t₀).failures = t₀.failures ∧
      (hs.foldl forget t₀).begun = t₀.begun := by
    induction hs with
    | nil => exact fun t₀ => ⟨rfl, rfl⟩
    | cons h hs ih =>
        intro t₀
        obtain ⟨hfailures, hbegun⟩ := ih (t₀.forget h)
        exact ⟨hfailures, hbegun.trans (begun_note_silent (t₀.monitor.silent_retire h) t₀)⟩
  exact hfold { t with failures := t.failures.filterKeys fun k => decide (k.1 ∉ hs) }

/-- Artifacts that were retired and then forgotten are retired in the books. -/
theorem books_forgetAll {hs : List Handle} (hcache : t'.cache = (t.cache.retireAll hs).1)
    (hmonitor : t'.monitor = t.monitor) (hfailures : t'.failures = t.failures)
    (hbegun : t'.begun = t.begun) (m : Mode) :
    (t'.forgetAll (t.cache.retireAll hs).2).books m = (t.books m).retire hs := by
  have hrep := forgetAll_reported t' (t.cache.retireAll hs).2
  obtain ⟨hkeep, hkeep'⟩ := forgetAll_keeps (t.cache.retireAll hs).2 t'
  unfold books Books.retire
  rw [hrep.cache, hrep.ledger, hkeep, hkeep', hcache, hmonitor, hfailures, hbegun]

/-! ## Reports -/

/-- A report that the ledger accepts changes the ledger alone. -/
theorem leads_report {b : Books} {c : Cache} {failures : FinMap (Handle × Nat) Nat} {n : Nat}
    {r : Report} (hr : r.Accepted t.shapes) (hl : r.step t.monitor.ledger = .ok l)
    (h : b.Leads ⟨c, l, failures, n, .interpreting⟩) (hc : t.cache = c) (hf : t.failures = failures)
    (hn : t.begun = n) : Rests b (report r t) := by
  have hrep := report_ends hr hl
  have hkeeps := report_keeps r t
  have hlead : ∀ t', t.Reported l t' → t'.failures = t.failures ∧ t'.begun = t.begun →
      b.Leads (t'.books .interpreting) := fun t' ht hk =>
    leads_books h (ht.cache.trans hc) ht.ledger (hk.1.trans hf) (hk.2.trans hn)
  cases hx : report r t with
  | ok a t' =>
      rw [hx] at hrep hkeeps
      exact hlead t' hrep hkeeps
  | error f t' =>
      rw [hx] at hrep hkeeps
      exact fun _ => hlead t' hrep.2.2 hkeeps

/-- Giving up the open trace is always accepted. -/
theorem Orderly.abort_accepted (h : t.Orderly q e m) {r : Recording} (hr : m.recording? = some r)
    (cause : Abort) :
    t.shapes.Accepts e r.key ∧ ∃ l, t.monitor.ledger.abort cause e r.key = .ok l := by
  cases m with
  | tracingLoop r' =>
      obtain rfl := Option.some.inj hr
      obtain ⟨l, hl, -⟩ := Follows.abort h.follows cause
      exact ⟨h.fits, l, hl⟩
  | tracingBridge p i r' =>
      obtain rfl := Option.some.inj hr
      obtain ⟨hk, hset, -⟩ := h.fits
      exact ⟨hk, _, Ledger.abort_settled cause hset⟩
  | _ => cases hr

theorem leads_abort (h : t.Orderly q e m) {r : Recording} (hr : m.recording? = some r)
    (cause : Abort) : Rests (t.books m) (report (.abort cause e r.key) t) := by
  obtain ⟨hk, l, hl⟩ := h.abort_accepted hr cause
  have hopen : m.recording?.isSome = true := Option.isSome_iff_exists.2 ⟨r, hr⟩
  have haccepted : Report.Accepted t.shapes (.abort cause e r.key) := hk
  exact leads_report haccepted hl (h.leads (.abort _ hopen hl)) rfl rfl rfl

theorem leads_leaveLoop (h : t.Orderly q e m) : Rests (t.books m) (leaveLoop e m t) := by
  cases m with
  | tracingLoop r => exact leads_abort h rfl .badLoop
  | tracingBridge p i r => exact leads_abort h rfl .bridge
  | _ => exact h.turn rfl rfl

/-! ## Loop heads -/

theorem leads_countHit (h : t.Orderly q e .interpreting) (hk : t.shapes.Accepts e k)
    (hl : t.cache.loop? (e.site k) = none) : Resumes (t.books .interpreting) (countHit e k t) := by
  rw [countHit_eq]
  dsimp only
  split_ifs
  · exact Books.Leads.refl _
  · let t₁ := { t with hits := t.hits.insert (e.site k) 0 }.note [.loopTraced e k]
    obtain ⟨l, hb, -⟩ := Follows.begin h.follows hl
    obtain ⟨t', hr, ht⟩ := report_begin (t := t₁) hk hb
    have hkeeps := report_keeps (.begin e k) t₁
    rw [hr] at hkeeps
    have hbegun : t₁.begun = t.begun + 1 := begun_note [.loopTraced e k] _
    refine Ends.bind ?_
    rw [hr]
    have hstroke := h.leads (.beginLoop _ { key := k, ops := [.label] } rfl hb)
    exact leads_books hstroke ht.cache ht.ledger hkeeps.1 (hkeeps.2.trans hbegun)

/-- Entering a live artifact, in the books: it is entered, or it is retired and forgotten. -/
theorem leads_enter (h : t.Orderly q e m) {j : Handle} {a : Artifact} (ha : t.cache.get? j = some a) :
    ((t.cache.enter j).2 = .entered → (t.books m).Leads ((t.enter j).1.books m)) ∧
      ∀ l retired, (t.cache.enter j).2 = .guardFailed l retired → ∀ es, Silent es →
        (t.books m).Leads ((((t.enter j).1.note es).forgetAll retired).books m) := by
  have hbegun : (t.enter j).1.begun = t.begun := begun_note_silent (t.cache.silent_enter j) t
  cases hg : a.guards.firstStale? t.cache.versions with
  | none =>
      have he := Cache.enter_of_current ha hg
      refine ⟨fun _ => ?_, fun l retired hf => ?_⟩
      · have hcache : (t.enter j).1.cache = (t.cache.enter j).1 := rfl
        exact leads_books (h.leads (.enter _ j)) (hcache.trans (congrArg Prod.fst he)) rfl rfl hbegun
      · rw [he] at hf
        cases hf
  | some v =>
      have he := Cache.enter_of_stale ha hg
      refine ⟨fun hin => ?_, fun l retired hf es hes => ?_⟩
      · rw [he] at hin
        cases hin
      · rw [he] at hf
        cases hf
        have hcache : ((t.enter j).1.note es).cache = (t.cache.retireAll [j]).1 := by
          rw [Cache.retireAll_singleton]
          exact congrArg Prod.fst he
        have hbegun' := (begun_note_silent hes (t.enter j).1).trans hbegun
        rw [← Cache.retireAll_singleton, books_forgetAll (t := t) hcache rfl rfl hbegun' m]
        exact h.leads (.retire _ [j])

theorem leads_enterOrCount (h : t.Orderly q e .interpreting) (hk : t.shapes.Accepts e k) :
    Resumes (t.books .interpreting) (enterOrCount e k t) := by
  rw [enterOrCount_eq]
  split_ifs
  · cases hl : t.cache.loop? (e.site k) with
    | none => exact leads_countHit h hk hl
    | some j =>
        obtain ⟨a, haj, -⟩ := (h.sound.loop_iff _ _).1 hl
        obtain ⟨hentered, hrefused⟩ := leads_enter h haj
        dsimp only
        rcases orderly_enter h haj with ⟨hin, hin'⟩ | ⟨l, hout, hout'⟩
        · rw [hin]
          exact (hentered hin).trans (hin'.turn rfl rfl)
        · rw [hout]
          obtain ⟨ho, hview, hc⟩ := hout' ((t.enter j).1.note [.loopRefused j l])
            ⟨rfl, rfl, rfl, rfl⟩
          have hpath := hrefused l _ hout [.loopRefused j l] (Silent.one rfl)
          have hk' : Shapes.Accepts _ e k := hview.2.symm ▸ hk
          have hfree := Cache.loop?_retire h.sound hl
          rw [← hc] at hfree
          exact (leads_countHit ho hk' hfree).behind hpath
  · exact Books.Leads.refl _

theorem leads_countFailure (h : t.Orderly q e .interpreting) {j : Handle} (i : Nat)
    (hj : ∀ a, t.cache.get? j = some a → a.kind = .loop) (hv : ∀ b, ¬ t.cache.Knows j i b) :
    (t.books .interpreting).Leads ((t.countFailure j i).1.books (t.countFailure j i).2) := by
  unfold countFailure
  cases ha : t.cache.get? j with
  | none => exact Books.Leads.refl _
  | some a =>
      have hbegun := begun_note_silent (Silent.one (x := .branchFailed j i
        (t.failures.findD (j, i) 0 + 1)) rfl) t
      have hcount := fun n => h.leads (.countFailure _ i n ha (hj a ha))
      dsimp only
      split_ifs
      · exact leads_books (hcount _) rfl rfl rfl hbegun
      · have hstep : Books.Step
            { t.books .interpreting with failures := t.failures.insert (j, i) 0 } _ :=
          ⟨h.sound, h.follows.sound, .beginBridge _ { key := a.site.key, ops := [] } rfl hv⟩
        refine leads_books ((hcount 0).tail hstep) rfl rfl rfl ?_
        exact (begun_note [.bridgeTraced j i] _).trans (congrArg (· + 1) hbegun)

theorem leads_guardFailed {j : Handle} {expected : List Bool} {n : Nat}
    (h : t.Orderly q e (.running j expected n)) (i : Nat) :
    (t.books (.running j expected n)).Leads ((t.guardFailed j i).1.books (t.guardFailed j i).2) := by
  have hkind : ∀ a, t.cache.get? j = some a → a.kind = .loop := fun a ha => (h.fits.2 a ha).1
  have hturn : ∀ {t' : Tracer}, t'.Orderly q e (.running j expected n) →
      (t'.books (.running j expected n)).Leads (t'.books .interpreting) := fun h' => h'.turn rfl rfl
  rw [guardFailed_eq]
  cases hb : t.cache.bridge? j i with
  | none =>
      have hv := h.sound.bridge?_eq_none_iff.1 hb
      exact (hturn h).trans (leads_countFailure (h.interpreting rfl) i hkind hv)
  | some b =>
      have hknows := h.sound.bridge?_eq_some_iff.1 hb
      obtain ⟨-, ba, hba, -⟩ := h.sound.of_knows hknows
      obtain ⟨hentered, hrefused⟩ := leads_enter h hba
      dsimp only
      rcases orderly_enter h hba with ⟨hin, hin'⟩ | ⟨l, hout, hout'⟩
      · rw [hin]
        exact (hentered hin).trans (hin'.turn rfl rfl)
      · rw [hout]
        obtain ⟨ho, -, hc⟩ := hout' ((t.enter b).1.note []) ⟨rfl, rfl, rfl, rfl⟩
        have hpath := (hrefused l _ hout [] Silent.nil).trans (hturn ho)
        -- the bridge that the guard had is the one that was retired
        have hv := h.sound.not_knows_retire hknows
        rw [← hc] at hv
        refine hpath.trans (leads_countFailure (ho.interpreting rfl) i (fun a ha => ?_) hv)
        exact (ho.fits.2 a ha).1

/-! ## Closing traces -/

/-- A trace is given up when its guards have taken a handle but one of them is stale. -/
theorem leads_abort_stale (h : t.Orderly q e m) {r : Recording} (hr : m.recording? = some r)
    {g : Guards} (hc : t'.cache = (t.cache.register g).1) (hm : t'.monitor = t.monitor)
    (hs : t'.shapes = t.shapes) (hf : t'.failures = t.failures) (hn : t'.begun = t.begun) :
    Rests (t.books m) (report (.abort .forcedWrite e r.key) t') := by
  have ho : t'.Orderly q e m := by
    refine h.recount ?_ ?_ ?_ hm hs
    · rw [hc]
      exact h.sound.register g
    · rw [hc]
      exact Cache.later_register t.cache g
    · rw [hc]
      rfl
  have hstroke := h.leads (.versions _ (t.cache.register g).1.versions (t.cache.next + 1))
  have hlead := leads_books hstroke hc (congrArg Monitor.ledger hm) hf hn
  exact (leads_abort ho hr .forcedWrite).behind hlead

theorem leads_closeLoop {r : Recording} (h : t.Orderly q e (.tracingLoop r)) :
    Rests (t.books (.tracingLoop r)) (closeLoop e r t) := by
  have hk : t.shapes.check e r.key = .ok t.shapes := h.fits
  generalize hops : r.ops ++ [.jump] = ops
  have hbegun := begun_note_silent (t.cache.silent_installLoop e r.key r.guards ops) t
  rw [closeLoop_eq, installLoop_eq, hk, hops]
  dsimp only
  cases hg : r.guards.firstStale? t.cache.versions with
  | some v =>
      have hstale : Silent [.captureStale v.location] := Silent.one rfl
      rw [Cache.addLoop_of_stale hg]
      dsimp only
      exact leads_abort_stale h rfl rfl rfl rfl rfl ((begun_note_silent hstale _).trans hbegun)
  | none =>
      obtain ⟨hj, hb⟩ := h.follows.unannounced h.sound
      obtain ⟨l, hl, -⟩ := h.follows.announceLoop hj hb r.guards ops
      -- the site had no loop while its loop was traced, so none is replaced
      have hfree : (t.cache.register r.guards).1.loop? (e.site r.key) = none :=
        h.follows.loop?_of_attempt
      have hmove : Books.Move ((t.books (.tracingLoop r)).retire []) _ :=
        .installLoop _ r.guards ops rfl hl
      have hlead := (h.leads (.retire _ [])).tail ⟨h.sound, h.follows.sound, hmove⟩
      rw [Cache.addLoop_of_current hg, Cache.vacate_of_none hfree]
      dsimp only
      refine leads_report ?_ ?_ hlead rfl rfl hbegun
      · exact hk
      · exact hl

theorem leads_closeBridge {p : Handle} {i : Nat} {r : Recording}
    (h : t.Orderly q e (.tracingBridge p i r)) :
    Rests (t.books (.tracingBridge p i r)) (closeBridge e p i r t) := by
  rw [closeBridge_eq]
  split_ifs with hlive
  · obtain ⟨a, ha⟩ := (Cache.isLive_iff _ _).1 hlive
    obtain ⟨-, -, -, hparent⟩ := h.fits
    obtain ⟨hkind, hentry⟩ := hparent a ha
    have hloop : a.IsLoop := hkind
    generalize r.ops ++ [.jump] = ops
    have hbegun := begun_note_silent (t.cache.silent_installBridge p i r.guards) t
    rw [installBridge_eq, ha]
    dsimp only
    rw [if_pos hloop]
    cases hg : r.guards.firstStale? t.cache.versions with
    | some v =>
        rw [Cache.addBridge_of_stale hg]
        dsimp only
        exact leads_abort_stale h rfl rfl rfl rfl rfl hbegun
    | none =>
        obtain ⟨hj, -⟩ := h.follows.unannounced h.sound
        have hf : Follows (t.cache.register r.guards).1 t.monitor.ledger none :=
          h.follows.of_loops (fun _ => rfl) (Nat.le_succ _)
        have hsite : (t.cache.register r.guards).1.loop? a.site = some p :=
          (h.sound.loop_iff _ _).2 ⟨a, ha, hkind, rfl⟩
        rw [Cache.addBridge_of_current hg]
        dsimp only
        by_cases hroom : (t.monitor.ledger.phase a.site).Room
        · obtain ⟨l, hl, -⟩ := hf.announceBridge hsite hentry hj hroom (Nat.lt_succ_self _) i
            r.guards ops
          have hlead := h.leads (.installBridge _ r.guards ops rfl ha hl)
          refine leads_report ?_ ?_ hlead rfl rfl hbegun
          · exact trivial
          · exact hl
        · have hl := Ledger.announceBridge_of_full (b := ⟨t.cache.next⟩) h.follows.sound
            ((hf.loops a.site p).2 hsite) hentry hroom
          refine ends_report_of_error ?_ hl fun hne => absurd rfl hne
          trivial
  · exact leads_abort h rfl .bridge

/-- Behind a closed trace the pass goes on as if there had been none. -/
theorem resumes_close {close : EStateM Fault Tracer Unit}
    (ho : Ends (fun _ t' => t'.Orderly q e .interpreting ∧ SameView t t') (Breaks q e t) (close t))
    (hl : Rests (t.books m) (close t)) (hk : t.shapes.Accepts e k) :
    Resumes (t.books m) ((close >>= fun _ => enterOrCount e k) t) := by
  refine Ends.bind ?_
  cases hx : close t with
  | ok a t' =>
      rw [hx] at ho hl
      obtain ⟨ho, -, hshapes⟩ := ho
      rw [← hshapes] at hk
      exact (leads_enterOrCount ho hk).behind hl
  | error f t' =>
      rw [hx] at hl
      exact hl

theorem leads_mergePoint (h : t.Orderly q e m) (hk : t.shapes.Accepts e k) :
    Resumes (t.books m) (mergePoint e k m t) := by
  refine ends_mergePoint ?_ ?_ (fun _ _ _ => Books.Leads.refl _) fun hm => ?_
  · rintro r rfl -
    exact resumes_close (breaks_of_halts (orderly_closeLoop h)) (leads_closeLoop h) hk
  · rintro p i r rfl -
    exact resumes_close (orderly_closeBridge h) (leads_closeBridge h) hk
  · have hi := h.interpreting (Mode.attempt?_of_recording? hm)
    exact (leads_enterOrCount hi hk).behind (h.turn hm rfl)

/-! ## Versions -/

theorem leads_capture (h : t.Orderly q e m) (l : Location) :
    (t.books m).Leads ((t.capture l).1.books m) :=
  leads_books (h.leads (.versions _ (t.cache.versions.read l).1 t.cache.next)) rfl rfl rfl
    (begun_note_silent (t.cache.versions.silent_capture l) t)

theorem leads_write (h : t.Orderly q e m) {l : Location} {value : Int} {i : Option Invalidation}
    (hw : t.write l value = .ok (t', i)) : (t.books m).Leads (t'.books m) := by
  have hsilent : ∀ revoked : Bool, Silent ((if i.isSome then t.cache.versions.narrateInvalidate l
      else []) ++ [.fieldWritten l value revoked]) := by
    intro revoked
    refine Silent.append ?_ (Silent.one rfl)
    split_ifs
    · exact t.cache.versions.silent_invalidate l
    · exact Silent.nil
  unfold write at hw
  cases hs : t.heap.set t.cache.versions l value with
  | error err =>
      rw [hs] at hw
      cases hw
  | ok p =>
      obtain ⟨heap, versions, j⟩ := p
      rw [hs] at hw
      obtain ⟨rfl, rfl⟩ := Prod.mk.inj (Except.ok.inj hw)
      exact leads_books (h.leads (.versions _ versions t.cache.next)) rfl rfl rfl
        (begun_note_silent (hsilent _) t)

theorem leads_retireDependents (h : t.Orderly q e m) (i : Invalidation) :
    (t.books m).Leads
      (((t.retireDependents i).1.forgetAll (t.retireDependents i).2).books m) := by
  have hbegun := begun_note_silent (Cache.silent_retireAll i.dependents t.cache) t
  have hcache : (t.retireDependents i).1.cache = (t.cache.retireAll i.dependents).1 := rfl
  have hstroke := h.leads (.retire _ i.dependents)
  rw [← books_forgetAll hcache rfl rfl hbegun m] at hstroke
  exact hstroke

end Tracer

/-! ## The operations of a frame -/

namespace Frame

variable {α β : Type} {q : Prop} {f f' : Frame}

def books (f : Frame) : Books := f.tracer.books f.mode

def Keeps (f : Frame) (r : EStateM.Result Fault Frame α) : Prop :=
  Ends (fun _ f' => f.books.Leads f'.books)
    (fun err f' => err ≠ .countOverflow → f.books.Leads f'.books) r

theorem keeps_stay (f : Frame) (a : α) : Keeps f (.ok a f) := Books.Leads.refl _

theorem Keeps.behind {r : EStateM.Result Fault Frame α} (h : f.books.Leads f'.books)
    (hr : Keeps f' r) : Keeps f r :=
  Ends.imp hr (fun _ _ => h.trans) fun _ _ hk he => h.trans (hk he)

theorem Keeps.bind {x : EStateM Fault Frame α} {y : α → EStateM Fault Frame β} {a : α}
    {reads : Reads} (ho : Obeys q f a reads (x f)) (hx : Keeps f (x f))
    (hy : ∀ f', f'.Orderly q → Keeps f' (y a f')) : Keeps f ((x >>= y) f) := by
  refine Ends.bind ?_
  cases hxf : x f with
  | ok b f' =>
      rw [hxf] at ho hx
      obtain ⟨rfl, -, ho, -⟩ := ho
      exact (hy f' ho).behind hx
  | error err f' =>
      rw [hxf] at hx
      exact hx

theorem keeps_abortTrace (h : f.Orderly q) (cause : Abort) : Keeps f (abortTrace cause f) := by
  refine ends_abortTrace (fun _ => Books.Leads.refl _) fun r hr => ?_
  have hnote : Silent [.traceGivenUp f.entry r.key cause] := Silent.one rfl
  have ht := Tracer.leads_abort (t := f.tracer.note [.traceGivenUp f.entry r.key cause])
    (h.same ⟨rfl, rfl, rfl, rfl⟩) hr cause
  rw [Tracer.books_note hnote] at ht
  exact ht

theorem leads_modifyRecording (h : f.Orderly q) (g : Recording → Recording) :
    f.books.Leads (Frame.books { f with mode := f.mode.modifyRecording g }) :=
  Tracer.Orderly.leads h (.record _ g)

theorem keeps_record (h : f.Orderly q) (op : Op) : Keeps f (record op f) := by
  have hlead : f.books.Leads (f.recorded op).books :=
    leads_modifyRecording h fun r => { r with ops := r.ops ++ [op] }
  have ho : (f.recorded op).Orderly q := Tracer.Orderly.modifyRecording h fun _ => rfl
  exact ends_record (fun _ => Books.Leads.refl _) (fun _ _ _ => hlead)
    fun _ _ _ => (keeps_abortTrace ho .tooLong).behind hlead

theorem leads_guardField (h : f.Orderly q) (l : Location) :
    f.books.Leads (f.guardField l).1.books := by
  have hcapture := Tracer.leads_capture h l
  have hc : Orderly q { f with tracer := (f.tracer.capture l).1 } :=
    Tracer.Orderly.recount h (h.sound.read l) (Cache.later_versions _ _) rfl rfl rfl
  exact of_guardField (P := fun f' => f.books.Leads f'.books) hcapture
    fun _ _ _ _ => hcapture.trans (leads_modifyRecording hc _)

theorem keeps_recordRead (h : f.Orderly q) (l : Location) : Keeps f (recordRead l f) := by
  rw [recordRead_eq]
  by_cases hq : f.tracer.settings.foldFields && (f.tracer.heap.isQuasi l).toOption.getD false
  · rw [if_pos hq]
    have ho := orderly_guardField h l
    refine Keeps.behind (leads_guardField h l) ?_
    refine Keeps.bind (obeys_record ho _) (keeps_record ho _) fun f' ho' => ?_
    split_ifs
    · exact keeps_record ho' _
    · exact keeps_stay f' ()
  · rw [if_neg hq]
    exact keeps_record h _

theorem keeps_getField (h : f.Orderly q) (l : Location) : Keeps f (getField l f) := by
  rw [getField_eq]
  cases f.tracer.heap.get l with
  | error err => exact keeps_stay f _
  | ok x =>
      dsimp only
      split_ifs
      · exact Keeps.bind (obeys_recordRead h l) (keeps_recordRead h l) fun f' _ => keeps_stay f' _
      · exact keeps_stay f _

theorem keeps_afterRevocation (h : f.Orderly q) (i : Invalidation) :
    Keeps f (afterRevocation i f) := by
  have hretire := Tracer.leads_retireDependents h i
  obtain ⟨ho, -⟩ := Tracer.orderly_retireDependents h i
  have hm : (f.revoked i).Orderly q := orderly_modeWithout ho _
  have hlead : f.books.Leads (f.revoked i).books := by
    refine hretire.trans ?_
    unfold revoked modeWithout
    split_ifs with ha
    · obtain ⟨j, hj, -⟩ := (Option.any_eq_true _ _).1 ha
      exact ho.turn (Mode.recording?_of_artifact? hj) rfl
    · exact Books.Leads.refl _
  exact ends_afterRevocation (fun _ => hlead)
    fun _ => (keeps_abortTrace hm .forcedWrite).behind hlead

theorem keeps_storeField (h : f.Orderly q) (l : Location) (value : Int) :
    Keeps f (storeField l value f) := by
  refine ends_storeField (fun _ _ => Books.Leads.refl _) (fun t hw => Tracer.leads_write h hw)
    fun t i hw => ?_
  have hlead : f.books.Leads (books { f with tracer := t }) := Tracer.leads_write h hw
  have ho : Orderly q { f with tracer := t } := (Tracer.orderly_write h hw).1
  exact (keeps_afterRevocation ho i).behind hlead

theorem keeps_setField (h : f.Orderly q) (l : Location) (value : Int) :
    Keeps f (setField l value f) := by
  rw [setField_eq]
  exact Keeps.bind (obeys_record h _) (keeps_record h _) fun f' ho => keeps_storeField ho l value

theorem keeps_branch (h : f.Orderly q) (cond : Bool) : Keeps f (branch cond f) := by
  rw [branch_eq]
  obtain ⟨t, m, e⟩ := f
  have hcounted : ∀ n op, Keeps ⟨t, m, e⟩
      (record op ⟨t, m.modifyRecording fun r => { r with branches := n + 1 }, e⟩) := by
    intro n op
    have ho : Orderly q ⟨t, m.modifyRecording fun r => { r with branches := n + 1 }, e⟩ :=
      Tracer.Orderly.modifyRecording h fun _ => rfl
    exact (keeps_record ho op).behind (leads_modifyRecording h _)
  cases m with
  | interpreting => exact keeps_stay _ ()
  | runningBridge b => exact keeps_stay _ ()
  | running j expected n =>
      dsimp only
      cases expected[n]? with
      | none => exact Tracer.Orderly.turn h rfl rfl
      | some direction =>
          dsimp only
          split_ifs
          · exact Tracer.Orderly.turn h rfl rfl
          · exact Tracer.leads_guardFailed h n
  | tracingLoop r => exact hcounted _ _
  | tracingBridge p i r => exact hcounted _ _

end Frame

end HotLoop

import HotLoop.Proofs.Currency
import HotLoop.Proofs.History

/-!
# Histories in which revocations are applied at once

A client that applies each revocation as soon as it is made leaves no stale guard behind: between its
writes all guards of all live artifacts are current, every live artifact stands among the dependents
of all that it guards, and no entry check ever fails. So the check at entry and the retirement at the
write agree in all such histories, whatever was installed, displaced, refused or retired in them.
-/

namespace HotLoop.Code.History

open Trace Versions

/-- A step, and the application of what it revoked. -/
def promptly (w : History) : Step → List Step
  | .invalidate l =>
    match w.cache.versions.invalidate? l with
    | some (_, i) => [.invalidate l, .apply i]
    | none => [.invalidate l]
  | s => [s]

def stepPromptly (w : History) (s : Step) : History := (w.promptly s).foldl step w

/-- The history of these steps on a fresh table and a fresh cache, with every revocation applied
before the next step. -/
def runPromptly (table : Nat) (steps : List Step) : History :=
  steps.foldl stepPromptly (fresh table)

variable {w : History}

/-- What is live behind an installation was live before, or has the guards that were to be
installed. -/
theorem guards_of_later {c c' : Cache} {a : Artifact} (hc' : c'.Sound) (hl : c.Later c')
    (hx : c'.next = c.next + 1) (ha : c'.get? ⟨c.next⟩ = some a) {h : Handle} {b : Artifact}
    (hb : c'.get? h = some b) :
    b.guards = a.guards ∨ ∃ b', c.get? h = some b' ∧ b.guards = b'.guards := by
  by_cases hh : h = ⟨c.next⟩
  · rw [hh] at hb
    exact Or.inl (congrArg Artifact.guards (Option.some.inj (hb.symm.trans ha)))
  · have hlt := (hc'.handle h b hb).2
    have hne : h.number ≠ c.next := fun he => hh (by rw [← he])
    obtain ⟨b', hb', -, -, hg⟩ := hl.live h b (by omega) hb
    exact Or.inr ⟨b', hb', hg⟩

theorem current_install (hw : w.Inv) (hc : w.cache.Current) (target : Target) (picks : List Nat)
    (ops : List Op) : (w.step (.install target picks ops)).cache.Current := by
  rcases install_cases target (w.guards picks) ops w.shapes hw.sound with
    ⟨shapes, c, a, hi, hg, ha, hag, hs, hx, hv, hl⟩ | ⟨shapes, v, hi, -⟩ | ⟨f, hi⟩
  · have hcur := (Cache.firstStale?_eq_none_iff _ _).1 hg
    simp only [step, perform, hi]
    apply hc.install hv hcur
    intro j b hb
    rw [← hag]
    exact guards_of_later hs hl hx ha hb
  · simp only [step, perform, hi]
    exact hc.register _
  · simp only [step, perform, hi]
    exact hc

theorem current_step (hw : w.Inv) (hc : w.cache.Current) {s : Step} (hs : ∀ l, s ≠ .invalidate l) :
    (w.step s).cache.Current := by
  cases s with
  | capture l => exact hc.read hw.sound l
  | invalidate l => exact absurd rfl (hs l)
  | apply i => exact hc.without (Cache.without_retireAll i.dependents hw.sound)
  | install target picks ops => exact current_install hw hc target picks ops
  | enter h => exact hc.enter hw.sound h
  | retire h => exact hc.without (Cache.without_retire hw.sound h)

theorem inv_stepPromptly (hw : w.Inv) (s : Step) : (w.stepPromptly s).Inv :=
  inv_foldl hw (w.promptly s)

theorem current_stepPromptly (hw : w.Inv) (hc : w.cache.Current) (s : Step) :
    (w.stepPromptly s).cache.Current := by
  cases s with
  | invalidate l =>
      cases hi : w.cache.versions.invalidate? l with
      | none =>
          have he : w.stepPromptly (.invalidate l) = w.step (.invalidate l) := by
            simp only [stepPromptly, promptly, hi]
            rfl
          simp only [he, step, perform, hi]
          exact hc
      | some p =>
          obtain ⟨t, i⟩ := p
          have he : w.stepPromptly (.invalidate l) = (w.step (.invalidate l)).step (.apply i) := by
            simp only [stepPromptly, promptly, hi]
            rfl
          simp only [he, step, perform, hi]
          exact hc.revoke hw.sound hi
  | _ => exact current_step hw hc (by simp)

theorem current_foldl (hw : w.Inv) (hc : w.cache.Current) (steps : List Step) :
    (steps.foldl stepPromptly w).Inv ∧ (steps.foldl stepPromptly w).cache.Current := by
  induction steps generalizing w with
  | nil => exact ⟨hw, hc⟩
  | cons s steps ih => exact ih (inv_stepPromptly hw s) (current_stepPromptly hw hc s)

/-- Guards of live artifacts are current and registered, and entry checks do not fail. -/
structure PushComplete (w : History) : Prop where
  current : ∀ h a, w.cache.get? h = some a → ∀ v ∈ a.guards.captured,
    w.cache.versions.IsCurrent v
  registered : ∀ h a, w.cache.get? h = some a → ∀ v ∈ a.guards.captured,
    h ∈ w.cache.versions.dependents v.location
  enter : ∀ h, (w.cache.enter h).2 = if w.cache.isLive h then .entered else .dead
  not_guardFailed : ∀ h l retired, (w.cache.enter h).2 ≠ .guardFailed l retired

/-- Retiring at the write is complete in all histories that apply each revocation at once. -/
theorem runPromptly_pushComplete (table : Nat) (steps : List Step) :
    (runPromptly table steps).PushComplete := by
  have hrun : (runPromptly table steps).Inv ∧ (runPromptly table steps).cache.Current :=
    current_foldl (inv_fresh table) (Cache.current_empty table) steps
  obtain ⟨hw, hc⟩ := hrun
  constructor
  case current => exact hc
  case registered => exact fun h a ha v hv => hw.sound.registered h a ha v hv (hc h a ha v hv)
  case enter => exact hc.enter_eq
  case not_guardFailed =>
    intro h l retired he
    have henter := hc.enter_eq h
    rw [he] at henter
    split_ifs at henter

end HotLoop.Code.History

import HotLoop.Proofs.Acts

/-!
# The life of one site

`Phase.after` is the life of a site by itself: a machine that knows of nothing but the acts that
concern the site. `Phase.Story` tells the same without a machine, by what has happened to the site
and what has not. Each list of acts ends in the one phase whose story it is.
-/

namespace HotLoop.Lifecycle

namespace Act

def Begins : Act → Prop
  | .report (.begin _ _) => True
  | _ => False

def Aborts : Act → Prop
  | .report (.abort _ _ _) => True
  | _ => False

def compiled? (a : Act) : Option Handle := a.loop?.map Prod.fst

def extended? (a : Act) : Option Handle := a.bridge?.map Prod.snd

end Act

def Phase.after (p : Phase) : Act → Phase
  | .report (.begin _ _) => .compiling
  | .report (.abort _ _ _) => if p = .compiling then .aborted else p
  | .report (.loop _ _ h _ _ _ _) => if p = .compiling then .compiled h else p
  | .report (.bridge _ parent _ _ _ _ _) =>
    if p.liveLoop? = some parent then .bridged parent (p.bridges + 1) else p
  | .retire h => if p.liveLoop? = some h then .retired h else p

/-! ## Stories -/

/-- An attempt is open: since it began, none was given up and none has ended in a loop. -/
def Open (as : List Act) : Prop :=
  ∃ past a rest, as = past ++ a :: rest ∧ a.Begins ∧ ∀ x ∈ rest, ¬ x.Aborts ∧ x.compiled? = none

/-- An attempt has ended in the loop `h`. What came since is `rest`, with neither the beginning of
another attempt nor the retirement of `h`. -/
def Since (as : List Act) (h : Handle) (rest : List Act) : Prop :=
  ∃ past a, as = past ++ a :: rest ∧ Open past ∧ a.compiled? = some h ∧
    ∀ x ∈ rest, ¬ x.Begins ∧ x ≠ .retire h

def bridgesOf (h : Handle) (as : List Act) : Nat := as.countP fun x => decide (x.extended? = some h)

/-- What has happened to a site that is in this phase. -/
def Phase.Story (as : List Act) : Phase → Prop
  | .untouched => ∀ x ∈ as, ¬ x.Begins
  | .compiling => Open as
  | .aborted => ∃ past a rest, as = past ++ a :: rest ∧ Open past ∧ a.Aborts ∧ ∀ x ∈ rest, ¬ x.Begins
  | .compiled h => ∃ rest, Since as h rest ∧ bridgesOf h rest = 0
  | .bridged h n => 0 < n ∧ ∃ rest, Since as h rest ∧ bridgesOf h rest = n
  | .retired h => ∃ past live rest, as = past ++ .retire h :: rest ∧ Since past h live ∧
      ∀ x ∈ rest, ¬ x.Begins

section

variable {as rest : List Act} {x : Act} {h : Handle} {p : Phase}

theorem bridgesOf_concat : bridgesOf h (rest ++ [x]) =
    bridgesOf h rest + if x.extended? = some h then 1 else 0 := by
  simp [bridgesOf, List.countP_append, List.countP_singleton]

theorem bridgesOf_cons : bridgesOf h (x :: rest) =
    (if x.extended? = some h then 1 else 0) + bridgesOf h rest := by
  simp [bridgesOf, List.countP_cons, Nat.add_comm]

theorem forall_mem_concat {P : Act → Prop} (hrest : ∀ y ∈ rest, P y) (hx : P x) :
    ∀ y ∈ rest ++ [x], P y := by
  intro y hy
  rcases List.mem_append.1 hy with hy | hy
  · exact hrest y hy
  · rw [List.mem_singleton.1 hy]
    exact hx

theorem concat_eq {past : List Act} {a : Act} (he : as = past ++ a :: rest) :
    as ++ [x] = past ++ a :: (rest ++ [x]) := by
  rw [he, List.append_assoc]
  rfl

theorem Since.concat (hs : Since as h rest) (hb : ¬ x.Begins) (hr : x ≠ .retire h) :
    Since (as ++ [x]) h (rest ++ [x]) := by
  obtain ⟨past, a, he, hopen, ha, hrest⟩ := hs
  exact ⟨past, a, concat_eq he, hopen, ha, forall_mem_concat hrest ⟨hb, hr⟩⟩

theorem Phase.Story.keep (hp : p.Story as) (hb : ¬ x.Begins)
    (hc : p = .compiling → ¬ x.Aborts ∧ x.compiled? = none)
    (hl : ∀ h, p.liveLoop? = some h → x ≠ .retire h ∧ x.extended? ≠ some h) :
    p.Story (as ++ [x]) := by
  cases p with
  | untouched => exact forall_mem_concat hp hb
  | compiling =>
      obtain ⟨past, a, rest, he, ha, hrest⟩ := hp
      exact ⟨past, a, rest ++ [x], concat_eq he, ha, forall_mem_concat hrest (hc rfl)⟩
  | aborted =>
      obtain ⟨past, a, rest, he, hopen, ha, hrest⟩ := hp
      exact ⟨past, a, rest ++ [x], concat_eq he, hopen, ha, forall_mem_concat hrest hb⟩
  | compiled h =>
      obtain ⟨rest, hs, hn⟩ := hp
      obtain ⟨hr, hx⟩ := hl h rfl
      refine ⟨rest ++ [x], hs.concat hb hr, ?_⟩
      rw [bridgesOf_concat, if_neg hx, hn]
  | bridged h n =>
      obtain ⟨hpos, rest, hs, hn⟩ := hp
      obtain ⟨hr, hx⟩ := hl h rfl
      refine ⟨hpos, rest ++ [x], hs.concat hb hr, ?_⟩
      rw [bridgesOf_concat, if_neg hx, hn, Nat.add_zero]
  | retired h =>
      obtain ⟨past, live, rest, he, hs, hrest⟩ := hp
      exact ⟨past, live, rest ++ [x], concat_eq he, hs, forall_mem_concat hrest hb⟩

/-- The story of a phase with a live loop. -/
theorem Phase.Story.since (hp : p.Story as) (hl : p.liveLoop? = some h) :
    ∃ rest, Since as h rest ∧ bridgesOf h rest = p.bridges := by
  cases p with
  | compiled j =>
      obtain rfl := Option.some.inj hl
      exact hp
  | bridged j n =>
      obtain rfl := Option.some.inj hl
      exact hp.2
  | _ => cases hl

theorem Phase.Story.after (hp : p.Story as) (x : Act) : (p.after x).Story (as ++ [x]) := by
  cases x with
  | retire h =>
      by_cases hl : p.liveLoop? = some h
      · obtain ⟨rest, hs, -⟩ := hp.since hl
        rw [Phase.after, if_pos hl]
        exact ⟨as, rest, [], rfl, hs, List.forall_mem_nil _⟩
      · rw [Phase.after, if_neg hl]
        refine hp.keep id (fun _ => ⟨id, rfl⟩) fun j hj => ⟨?_, by simp [Act.extended?, Act.bridge?]⟩
        rintro he
        cases he
        exact hl hj
  | report r =>
      cases r with
      | begin e k => exact ⟨as, _, [], rfl, trivial, List.forall_mem_nil _⟩
      | abort cause e k =>
          by_cases hc : p = .compiling
          · subst hc
            rw [Phase.after, if_pos rfl]
            exact ⟨as, _, [], rfl, hp, trivial, List.forall_mem_nil _⟩
          · rw [Phase.after, if_neg hc]
            exact hp.keep id (fun he => absurd he hc) fun j _ =>
              ⟨by simp, by simp [Act.extended?, Act.bridge?]⟩
      | loop e k h ops kind address length =>
          by_cases hc : p = .compiling
          · subst hc
            rw [Phase.after, if_pos rfl]
            exact ⟨[], ⟨as, _, rfl, hp, rfl, List.forall_mem_nil _⟩, rfl⟩
          · rw [Phase.after, if_neg hc]
            exact hp.keep id (fun he => absurd he hc) fun j _ =>
              ⟨by simp, by simp [Act.extended?, Act.bridge?]⟩
      | bridge e parent b i ops address length =>
          by_cases hl : p.liveLoop? = some parent
          · obtain ⟨rest, hs, hn⟩ := hp.since hl
            rw [Phase.after, if_pos hl]
            refine ⟨Nat.succ_pos _, rest ++ [_], hs.concat id (by simp), ?_⟩
            rw [bridgesOf_concat, hn]
            exact congrArg (p.bridges + ·) (if_pos rfl)
          · rw [Phase.after, if_neg hl]
            refine hp.keep id (fun _ => ⟨id, rfl⟩) fun j hj => ⟨by simp, fun he => ?_⟩
            obtain rfl := Option.some.inj he
            exact hl hj

theorem story_foldl (as : List Act) : (as.foldl Phase.after .untouched).Story as := by
  induction as using List.reverseRecOn with
  | nil => exact List.forall_mem_nil _
  | append_singleton as x ih =>
      rw [List.foldl_append]
      exact ih.after x

/-! ## Each story is of one phase -/

def Phase.live (h : Handle) : Nat → Phase
  | 0 => .compiled h
  | n + 1 => .bridged h (n + 1)

theorem Phase.after_eq (hb : ¬ x.Begins) (hc : p = .compiling → ¬ x.Aborts ∧ x.compiled? = none)
    (hl : ∀ h, p.liveLoop? = some h → x ≠ .retire h ∧ x.extended? ≠ some h) : p.after x = p := by
  cases x with
  | retire h => exact if_neg fun hp => (hl h hp).1 rfl
  | report r =>
      cases r with
      | begin e k => exact absurd trivial hb
      | abort cause e k => exact if_neg fun hp => (hc hp).1 trivial
      | loop e k h ops kind address length => exact if_neg fun hp => nomatch (hc hp).2
      | bridge e parent b i ops address length => exact if_neg fun hp => (hl parent hp).2 rfl

theorem Phase.after_of_begins (p : Phase) (hx : x.Begins) : p.after x = .compiling := by
  cases x with
  | retire j => exact absurd hx id
  | report r =>
      cases r with
      | begin e k => rfl
      | _ => exact absurd hx id

theorem Phase.after_of_aborts (hx : x.Aborts) : Phase.compiling.after x = .aborted := by
  cases x with
  | retire j => exact absurd hx id
  | report r =>
      cases r with
      | abort cause e k => rfl
      | _ => exact absurd hx id

theorem Phase.after_of_compiled? (hx : x.compiled? = some h) :
    Phase.compiling.after x = .compiled h := by
  cases x with
  | retire j => cases hx
  | report r =>
      cases r with
      | loop e k j ops kind address length =>
          obtain rfl := Option.some.inj hx
          rfl
      | _ => cases hx

theorem foldl_after_eq (hrest : ∀ x ∈ rest, p.after x = p) : rest.foldl Phase.after p = p := by
  induction rest with
  | nil => rfl
  | cons x rest ih =>
      obtain ⟨hx, hrest⟩ := List.forall_mem_cons.1 hrest
      rw [List.foldl_cons, hx, ih hrest]

/-- Where nothing is live, only a new attempt moves the site. -/
theorem foldl_after_idle (hc : p ≠ .compiling) (hl : p.liveLoop? = none)
    (hrest : ∀ x ∈ rest, ¬ x.Begins) : rest.foldl Phase.after p = p :=
  foldl_after_eq fun x hx =>
    Phase.after_eq (hrest x hx) (fun h => absurd h hc) fun h hh => by simp [hl] at hh

theorem Phase.liveLoop?_live (h : Handle) (n : Nat) : (live h n).liveLoop? = some h := by
  cases n with
  | zero => rfl
  | succ n => rfl

theorem Phase.bridges_live (h : Handle) (n : Nat) : (live h n).bridges = n := by
  cases n with
  | zero => rfl
  | succ n => rfl

theorem Phase.live_ne_compiling (h : Handle) (n : Nat) : live h n ≠ .compiling := by
  cases n with
  | zero => exact nofun
  | succ n => exact nofun

theorem Phase.after_live (n : Nat) (hb : ¬ x.Begins) (hr : x ≠ .retire h) :
    (live h n).after x = live h (n + if x.extended? = some h then 1 else 0) := by
  by_cases hx : x.extended? = some h
  · rw [if_pos hx]
    cases x with
    | retire j => cases hx
    | report r =>
        cases r with
        | bridge e parent b i ops address length =>
            obtain rfl := Option.some.inj hx
            refine (if_pos (liveLoop?_live parent n)).trans ?_
            rw [bridges_live]
            rfl
        | _ => cases hx
  · rw [if_neg hx, Nat.add_zero]
    refine after_eq hb (fun hc => absurd hc (live_ne_compiling h n)) fun j hj => ?_
    rw [liveLoop?_live] at hj
    obtain rfl := Option.some.inj hj
    exact ⟨hr, hx⟩

theorem foldl_after_live (n : Nat) (hrest : ∀ x ∈ rest, ¬ x.Begins ∧ x ≠ .retire h) :
    rest.foldl Phase.after (.live h n) = .live h (n + bridgesOf h rest) := by
  induction rest generalizing n with
  | nil => rfl
  | cons x rest ih =>
      obtain ⟨⟨hb, hr⟩, hrest⟩ := List.forall_mem_cons.1 hrest
      rw [List.foldl_cons, Phase.after_live n hb hr, ih _ hrest, bridgesOf_cons, Nat.add_assoc]

theorem Open.foldl_eq (ho : Open as) : as.foldl Phase.after .untouched = .compiling := by
  obtain ⟨past, a, rest, rfl, ha, hrest⟩ := ho
  rw [List.foldl_append, List.foldl_cons, Phase.after_of_begins _ ha]
  apply foldl_after_eq
  intro x hx
  by_cases hb : x.Begins
  · exact Phase.after_of_begins _ hb
  · exact Phase.after_eq hb (fun _ => hrest x hx) fun j hj => nomatch hj

theorem Since.foldl_eq (hs : Since as h rest) :
    as.foldl Phase.after .untouched = .live h (bridgesOf h rest) := by
  obtain ⟨past, a, rfl, ho, ha, hrest⟩ := hs
  have hlive := foldl_after_live 0 hrest
  rw [Nat.zero_add] at hlive
  rw [List.foldl_append, List.foldl_cons, ho.foldl_eq, Phase.after_of_compiled? ha]
  exact hlive

theorem Phase.Story.foldl_eq (hp : p.Story as) : as.foldl Phase.after .untouched = p := by
  cases p with
  | untouched => exact foldl_after_idle (by simp) rfl hp
  | compiling => exact Open.foldl_eq hp
  | aborted =>
      obtain ⟨past, a, rest, rfl, ho, ha, hrest⟩ := hp
      rw [List.foldl_append, List.foldl_cons, ho.foldl_eq, after_of_aborts ha]
      exact foldl_after_idle (by simp) rfl hrest
  | compiled h =>
      obtain ⟨rest, hs, hn⟩ := hp
      rw [hs.foldl_eq, hn]
      rfl
  | bridged h n =>
      obtain ⟨hpos, rest, hs, hn⟩ := hp
      rw [hs.foldl_eq, hn]
      cases n with
      | zero => exact absurd hpos (Nat.lt_irrefl 0)
      | succ n => rfl
  | retired h =>
      obtain ⟨past, live, rest, rfl, hs, hrest⟩ := hp
      have hretire : (Phase.live h (bridgesOf h live)).after (.retire h) = .retired h :=
        if_pos (liveLoop?_live h _)
      rw [List.foldl_append, List.foldl_cons, hs.foldl_eq, hretire]
      exact foldl_after_idle (by simp) rfl hrest

/-- The acts that concern a site decide its phase. -/
theorem foldl_after_iff :
    as.foldl Phase.after .untouched = p ↔ p.Story as := by
  refine ⟨fun he => ?_, Phase.Story.foldl_eq⟩
  rw [← he]
  exact story_foldl as

end

end HotLoop.Lifecycle

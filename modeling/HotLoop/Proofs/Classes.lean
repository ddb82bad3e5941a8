import HotLoop.Proofs.Forms
import HotLoop.Proofs.Heap

/-!
# Declaring a class

The specs of a class are read in turn, and the first bad one ends it. Still their order does not
matter: they are accepted if each of them is and no two declare the same name, and then a field has
the flags of the one spec that declares it.
-/

namespace HotLoop

namespace Field

namespace Declaration

theorem quasi_iff_mem {s : String} {d : Declaration} (h : parse s = .ok d) :
    d.quasi = true ↔ '?' ∈ s.toList := by
  obtain ⟨hname, ⟨before, after, hs, hbefore, hafter⟩, -, -⟩ := parse_eq_ok_iff.1 h
  have hb : '?' ∉ before := fun hm => absurd (hbefore _ hm) (by decide)
  have ha : '?' ∉ after := fun hm => absurd (hafter _ hm) (by decide)
  have hn : '?' ∉ d.name.toList := fun hm => absurd ((identifier_iff.1 hname).2 _ hm) (by decide)
  have hm : '?' ∈ marks d.quasi d.array ↔ d.quasi = true := by
    cases d.quasi <;> cases d.array <;> decide
  rw [hs, text_eq, ← hm]
  simp only [List.mem_append, hb, hn, ha, false_or, or_false]

end Declaration

namespace Declarations

def Spelled (specs : List String) (decls : List Declaration) : Prop :=
  List.Forall₂ (fun s d => Declaration.parse s = .ok d) specs decls

def declare (m : FinMap String Flags) (decls : List Declaration) : FinMap String Flags :=
  decls.foldl (fun m d => m.insert d.name d.flags) m

variable {specs specs' : List String} {decls decls' : List Declaration} {ds ds' : Declarations}
  {m : FinMap String Flags} {f : String}

theorem contains_insert {k : String} {a : Flags} :
    (m.insert k a).contains f = false ↔ f ≠ k ∧ m.contains f = false := by
  unfold FinMap.contains
  rw [FinMap.find?_insert]
  split_ifs with hf <;> simp [hf]

/-- Specs are added if each of them can be read and names a field that has no flags yet. -/
theorem addAll_eq_ok_iff : ds.addAll specs = .ok ds' ↔
    ∃ decls, Spelled specs decls ∧ (decls.map Declaration.name).Nodup ∧
      (∀ d ∈ decls, ds.fields.contains d.name = false) ∧ ds' = ⟨declare ds.fields decls⟩ := by
  induction specs generalizing ds with
  | nil =>
      constructor
      · intro h
        exact ⟨[], .nil, List.nodup_nil, by simp, (Except.ok.inj h).symm⟩
      · rintro ⟨decls, h, -, -, rfl⟩
        cases h
        rfl
  | cons spec specs ih =>
      simp only [addAll, Spelled, List.forall₂_cons_left_iff]
      cases hd : Declaration.parse spec with
      | error e => simp
      | ok d =>
          dsimp only
          split_ifs with hc
          · constructor
            · intro h
              cases h
            · rintro ⟨_, ⟨_, rest, hd', -, rfl⟩, -, hnew, -⟩
              obtain rfl := Except.ok.inj hd'
              rw [hnew d List.mem_cons_self] at hc
              cases hc
          · rw [ih]
            constructor
            · rintro ⟨rest, h, hn, hnew, rfl⟩
              simp only [contains_insert] at hnew
              refine ⟨d :: rest, ⟨d, rest, rfl, h, rfl⟩, List.nodup_cons.2 ⟨?_, hn⟩, ?_, rfl⟩
              · intro hm
                obtain ⟨d', hd', he⟩ := List.mem_map.1 hm
                exact (hnew d' hd').1 he
              · exact List.forall_mem_cons.2 ⟨Bool.eq_false_iff.2 hc, fun d' hd' => (hnew d' hd').2⟩
            · rintro ⟨_, ⟨_, rest, hd', h, rfl⟩, hn, hnew, rfl⟩
              obtain rfl := Except.ok.inj hd'
              obtain ⟨hm, hn⟩ := List.nodup_cons.1 hn
              refine ⟨rest, h, hn, fun d' hd' => contains_insert.2 ⟨?_, ?_⟩, rfl⟩
              · exact fun he => hm (he ▸ List.mem_map_of_mem hd')
              · exact hnew d' (List.mem_cons_of_mem _ hd')

theorem parse_eq_ok_iff : parse specs = .ok ds ↔
    ∃ decls, Spelled specs decls ∧ (decls.map Declaration.name).Nodup ∧
      ds = ⟨declare ∅ decls⟩ := by
  have hnew : ∀ d : Declaration, empty.fields.contains d.name = false := fun _ => rfl
  rw [parse, addAll_eq_ok_iff]
  constructor
  · rintro ⟨decls, h, hn, -, hds⟩
    exact ⟨decls, h, hn, hds⟩
  · rintro ⟨decls, h, hn, hds⟩
    exact ⟨decls, h, hn, fun d _ => hnew d, hds⟩

theorem find?_declare_of_ne (h : ∀ d ∈ decls, d.name ≠ f) :
    (declare m decls).find? f = m.find? f := by
  induction decls generalizing m with
  | nil => rfl
  | cons d decls ih =>
      obtain ⟨hd, h⟩ := List.forall_mem_cons.1 h
      exact (ih h).trans (FinMap.find?_insert_of_ne (Ne.symm hd) _)

theorem find?_declare_of_mem (hn : (decls.map Declaration.name).Nodup) {d : Declaration}
    (hd : d ∈ decls) : (declare m decls).find? d.name = some d.flags := by
  induction decls generalizing m with
  | nil => cases hd
  | cons d' decls ih =>
      obtain ⟨hm, hn⟩ := List.nodup_cons.1 hn
      rcases List.mem_cons.1 hd with rfl | hd
      · have hne : ∀ d' ∈ decls, d'.name ≠ d.name := fun d' hd' he =>
          hm (he ▸ List.mem_map_of_mem hd')
        exact (find?_declare_of_ne hne).trans (FinMap.find?_insert_self m d.name d.flags)
      · exact ih hn hd

theorem keys_declare (hn : (decls.map Declaration.name).Nodup)
    (hnew : ∀ d ∈ decls, m.find? d.name = none) :
    (declare m decls).keys = m.keys ++ decls.map Declaration.name := by
  induction decls generalizing m with
  | nil => exact (List.append_nil _).symm
  | cons d decls ih =>
      obtain ⟨hm, hn⟩ := List.nodup_cons.1 hn
      obtain ⟨hd, hnew⟩ := List.forall_mem_cons.1 hnew
      have hrest : ∀ d' ∈ decls, (m.insert d.name d.flags).find? d'.name = none := by
        intro d' hd'
        have hne : d'.name ≠ d.name := fun he => hm (he ▸ List.mem_map_of_mem hd')
        rw [FinMap.find?_insert_of_ne hne]
        exact hnew d' hd'
      refine (ih hn hrest).trans ?_
      rw [FinMap.keys_insert hd, List.append_assoc]
      rfl

structure Lists (decls : List Declaration) (ds : Declarations) : Prop where
  names : ds.names = decls.map Declaration.name
  flags (d : Declaration) (hd : d ∈ decls) : ds.flags d.name = d.flags
  others (f : String) (hf : ∀ d ∈ decls, d.name ≠ f) : ds.flags f = .empty

theorem lists_declare (hn : (decls.map Declaration.name).Nodup) :
    Lists decls ⟨declare ∅ decls⟩ where
  names := keys_declare hn fun _ _ => rfl
  flags := fun d hd => by rw [flags, FinMap.findD, find?_declare_of_mem hn hd]; rfl
  others := fun f hf => by rw [flags, FinMap.findD, find?_declare_of_ne hf]; rfl

theorem Lists.flags_eq (h : Lists decls ds) (h' : Lists decls' ds') (hp : decls.Perm decls') :
    ds.flags f = ds'.flags f := by
  by_cases hf : ∀ d ∈ decls, d.name ≠ f
  · rw [h.others f hf, h'.others f fun d hd => hf d (hp.mem_iff.2 hd)]
  · simp only [not_forall, not_not] at hf
    obtain ⟨d, hd, rfl⟩ := hf
    rw [h.flags d hd, h'.flags d (hp.mem_iff.1 hd)]

/-- Reading lists the declarations of the specs. It needs them to be of different names. -/
theorem exists_parse_iff : (∃ ds, parse specs = .ok ds) ↔
    ∃ decls, Spelled specs decls ∧ (decls.map Declaration.name).Nodup := by
  constructor
  · rintro ⟨ds, h⟩
    obtain ⟨decls, hs, hn, -⟩ := parse_eq_ok_iff.1 h
    exact ⟨decls, hs, hn⟩
  · rintro ⟨decls, hs, hn⟩
    exact ⟨_, parse_eq_ok_iff.2 ⟨decls, hs, hn, rfl⟩⟩

theorem lists_of_parse (h : parse specs = .ok ds) :
    ∃ decls, Spelled specs decls ∧ Lists decls ds := by
  obtain ⟨decls, hs, hn, rfl⟩ := parse_eq_ok_iff.1 h
  exact ⟨decls, hs, lists_declare hn⟩

theorem Spelled.exists_spec (h : Spelled specs decls) {d : Declaration} (hd : d ∈ decls) :
    ∃ s ∈ specs, Declaration.parse s = .ok d := by
  induction h with
  | nil => cases hd
  | cons hs _ ih =>
      rcases List.mem_cons.1 hd with rfl | hd
      · exact ⟨_, List.mem_cons_self, hs⟩
      · obtain ⟨s, hs, hp⟩ := ih hd
        exact ⟨s, List.mem_cons_of_mem _ hs, hp⟩

theorem Spelled.exists_declaration (h : Spelled specs decls) {s : String} (hs : s ∈ specs) :
    ∃ d ∈ decls, Declaration.parse s = .ok d := by
  induction h with
  | nil => cases hs
  | cons hp _ ih =>
      rcases List.mem_cons.1 hs with rfl | hs
      · exact ⟨_, List.mem_cons_self, hp⟩
      · obtain ⟨d, hd, hp⟩ := ih hs
        exact ⟨d, List.mem_cons_of_mem _ hd, hp⟩

/-- Specs in another order are texts of the declarations in another order. -/
theorem Spelled.perm (h : Spelled specs decls) (hp : specs'.Perm specs) :
    ∃ decls', Spelled specs' decls' ∧ decls'.Perm decls :=
  List.perm_comp_forall₂ hp h

theorem Spelled.unique (h : Spelled specs decls) (h' : Spelled specs decls') : decls = decls' := by
  induction h generalizing decls' with
  | nil => cases h'; rfl
  | cons hs _ ih =>
      cases h' with
      | cons hs' h' =>
          rw [hs] at hs'
          rw [Except.ok.inj hs', ih h']

theorem exists_parse_of_perm (hp : specs'.Perm specs) (h : ∃ ds, parse specs = .ok ds) :
    ∃ ds, parse specs' = .ok ds := by
  obtain ⟨decls, hs, hn⟩ := exists_parse_iff.1 h
  obtain ⟨decls', hs', hp'⟩ := hs.perm hp
  exact exists_parse_iff.2 ⟨decls', hs', (hp'.map _).nodup_iff.2 hn⟩

end Declarations

end Field

namespace ObjectClass

variable {name : String} {fields specs : List String} {c : ObjectClass}

theorem make_eq_ok_iff : make name fields specs = .ok c ↔
    Field.Declarations.parse specs = .ok c.declared ∧ (∀ f ∈ c.declared.names, f ∈ fields) ∧
      c.name = name ∧ c.fields = fields := by
  unfold make
  constructor
  · intro h
    split at h
    · cases h
    · rename_i declared hd
      split at h
      · cases h
      · rename_i hf
        cases h
        exact ⟨hd, fun f hm => by simpa using List.find?_eq_none.1 hf f hm, rfl, rfl⟩
  · rintro ⟨hd, hf, rfl, rfl⟩
    rw [hd]
    dsimp only
    split
    · rename_i f hfind
      have hm := List.mem_of_find?_eq_some hfind
      exact absurd (hf f hm) (by simpa using List.find?_some hfind)
    · rfl

theorem exists_make_iff : (∃ c, make name fields specs = .ok c) ↔
    (∃ ds, Field.Declarations.parse specs = .ok ds) ∧
      ∀ s ∈ specs, ∀ d, Field.Declaration.parse s = .ok d → d.name ∈ fields := by
  constructor
  · rintro ⟨c, h⟩
    obtain ⟨hd, hf, -, -⟩ := make_eq_ok_iff.1 h
    obtain ⟨decls, hs, hlists⟩ := Field.Declarations.lists_of_parse hd
    refine ⟨⟨_, hd⟩, fun s hm d hp => hf _ ?_⟩
    obtain ⟨d', hd', hp'⟩ := hs.exists_declaration hm
    rw [hp] at hp'
    rw [hlists.names, Except.ok.inj hp']
    exact List.mem_map_of_mem hd'
  · rintro ⟨⟨ds, hd⟩, hf⟩
    obtain ⟨decls, hs, hlists⟩ := Field.Declarations.lists_of_parse hd
    have hnames : ∀ f ∈ ds.names, f ∈ fields := by
      intro f hm
      rw [hlists.names] at hm
      obtain ⟨d, hmem, rfl⟩ := List.mem_map.1 hm
      obtain ⟨s, hmem, hp⟩ := hs.exists_spec hmem
      exact hf s hmem d hp
    exact ⟨⟨name, fields, ds, hnames⟩, make_eq_ok_iff.2 ⟨hd, hnames, rfl, rfl⟩⟩

end ObjectClass

namespace Field

theorem exists_quasi {specs : List String} {ds : Declarations} {f : String}
    (h : Declarations.parse specs = .ok ds) (hq : ds.IsQuasi f) :
    ∃ s ∈ specs, '?' ∈ s.toList ∧ ∃ d, Declaration.parse s = .ok d ∧ d.name = f := by
  obtain ⟨decls, hs, hlists⟩ := Declarations.lists_of_parse h
  have hm := Heap.mem_names_of_isQuasi hq
  rw [hlists.names] at hm
  obtain ⟨d, hd, rfl⟩ := List.mem_map.1 hm
  obtain ⟨s, hmem, hp⟩ := hs.exists_spec hd
  rw [Declarations.IsQuasi, hlists.flags d hd, (Declaration.marked_flags d).quasiImmutable] at hq
  exact ⟨s, hmem, (Declaration.quasi_iff_mem hp).1 hq, d, hp, rfl⟩

/-- What comes of a list of specs. The order in which they stand is nowhere mentioned. -/
structure Orderless (specs : List String) : Prop where
  /-- Two specs clash if they are of one name, whatever their marks. -/
  succeeds : (∃ ds, Declarations.parse specs = .ok ds) ↔ ∃ decls, Declarations.Spelled specs decls ∧
    (decls.map Declaration.name).Nodup
  /-- A field has the flags of the spec that declares it, and none if there is no such spec. -/
  flags (ds : Declarations) (h : Declarations.parse specs = .ok ds) :
    (∀ s ∈ specs, ∃ d, Declaration.parse s = .ok d ∧ ds.flags d.name = d.flags) ∧
      ∀ f, (∀ s ∈ specs, ∀ d, Declaration.parse s = .ok d → d.name ≠ f) → ds.flags f = .empty
  /-- The same specs in another order are accepted too, and give every field the same flags. -/
  perm (specs' : List String) (hp : specs'.Perm specs) :
    ((∃ ds, Declarations.parse specs' = .ok ds) ↔ ∃ ds, Declarations.parse specs = .ok ds) ∧
      ∀ ds ds', Declarations.parse specs = .ok ds → Declarations.parse specs' = .ok ds' →
        (∀ f, ds'.flags f = ds.flags f) ∧ ds'.names.Perm ds.names
  /-- A class can be made of the specs if all of them name fields of it. -/
  make (name : String) (fields : List String) :
    (∃ c, ObjectClass.make name fields specs = .ok c) ↔
      (∃ ds, Declarations.parse specs = .ok ds) ∧
        ∀ s ∈ specs, ∀ d, Declaration.parse s = .ok d → d.name ∈ fields
  /-- A write to an object of the class revokes a version only if a spec with a question mark
  declares the field. -/
  revokes (name : String) (fields : List String) (c : ObjectClass)
    (hc : ObjectClass.make name fields specs = .ok c) (h h' : Heap) (t t' : Versions)
    (l : Location) (o : Object) (ho : h.object l.object = .ok o) (hcls : o.cls = c) (value : Int)
    (i : Invalidation) (hset : h.set t l value = .ok (h', t', some i)) :
    ∃ s ∈ specs, '?' ∈ s.toList ∧ ∃ d, Declaration.parse s = .ok d ∧ d.name = l.field

/-- The order in which a class declares its fields does not matter. -/
theorem orderless_specs (specs : List String) : Orderless specs where
  succeeds := Declarations.exists_parse_iff
  flags := fun ds h => by
    obtain ⟨decls, hs, hlists⟩ := Declarations.lists_of_parse h
    refine ⟨fun s hm => ?_, fun f hf => hlists.others f fun d hd => ?_⟩
    · obtain ⟨d, hd, hp⟩ := hs.exists_declaration hm
      exact ⟨d, hp, hlists.flags d hd⟩
    · obtain ⟨s, hm, hp⟩ := hs.exists_spec hd
      exact hf s hm d hp
  perm := fun specs' hp => by
    refine ⟨⟨Declarations.exists_parse_of_perm hp.symm, Declarations.exists_parse_of_perm hp⟩,
      fun ds ds' h h' => ?_⟩
    obtain ⟨decls, hs, hlists⟩ := Declarations.lists_of_parse h
    obtain ⟨decls', hs', hlists'⟩ := Declarations.lists_of_parse h'
    obtain ⟨_, hs'', hperm⟩ := hs.perm hp
    obtain rfl := hs''.unique hs'
    refine ⟨fun f => hlists'.flags_eq hlists hperm, ?_⟩
    rw [hlists'.names, hlists.names]
    exact hperm.map _
  make := fun name fields => ObjectClass.exists_make_iff
  revokes := fun name fields c hc h h' t t' l o ho hcls value i hset => by
    obtain ⟨hd, -, -, -⟩ := ObjectClass.make_eq_ok_iff.1 hc
    rcases Heap.revoke_set hset with ⟨_, -, hq, -⟩ | ⟨hnone, -, -⟩
    · rw [Heap.isQuasi_of_object ho, Except.ok.injEq, decide_eq_true_iff, hcls] at hq
      exact exists_quasi hd hq
    · cases hnone

example : Declarations.parse ["b", "a?", "a"] = .error (.declaration "a" .declaredTwice) := by rfl

end Field

end HotLoop

import PrivacySuite.Data.OrdSet

/-!
# Tables with indexes

A table keeps an entry under each name. An index over it is an ordered set of keys that
are computed from the entries: `key` gives the key an entry has in the index, if it has
one. Around a change of one entry its old key is taken out and its new one put in;
in between, the index is that of all other entries (`IndexesBut`).
-/

namespace Data

open List

/-- A table of entries under names. -/
abbrev Table (N E : Type) := AList fun _ : N => E

def Table.retain {N E : Type} (t : Table N E) (keep : E → Bool) : Table N E :=
  ⟨t.entries.filter fun p => keep p.2, List.NodupKeys.sublist List.filter_sublist t.nodupKeys⟩

def Table.mapEntries {N E : Type} (t : Table N E) (change : E → E) : Table N E where
  entries := t.entries.map fun p => ⟨p.1, change p.2⟩
  nodupKeys := by
    have hkeys : (t.entries.map fun p => (⟨p.1, change p.2⟩ : Sigma fun _ : N => E)).keys =
        t.entries.keys := by
      rw [List.keys, List.map_map]
      rfl
    rw [List.NodupKeys, hkeys]
    exact t.nodupKeys

section Lookup

variable {N E : Type} [DecidableEq N]

theorem lookup_retain (t : Table N E) (keep : E → Bool) (n : N) :
    (t.retain keep).lookup n = (t.lookup n).filter keep := by
  apply Option.ext
  intro e
  rw [Option.filter_eq_some_iff]
  show e ∈ (t.retain keep).lookup n ↔ e ∈ t.lookup n ∧ _
  rw [AList.mem_lookup_iff, AList.mem_lookup_iff]
  exact mem_filter

theorem lookup_mapEntries (t : Table N E) (change : E → E) (n : N) :
    (t.mapEntries change).lookup n = (t.lookup n).map change := by
  apply Option.ext
  intro e
  rw [Option.map_eq_some_iff]
  show e ∈ (t.mapEntries change).lookup n ↔ ∃ e', e' ∈ t.lookup n ∧ _
  rw [AList.mem_lookup_iff, Table.mapEntries, mem_map]
  constructor
  · rintro ⟨⟨n', e'⟩, hmem, heq⟩
    cases heq
    exact ⟨e', AList.mem_lookup_iff.mpr hmem, rfl⟩
  · rintro ⟨e', hmem, rfl⟩
    exact ⟨⟨n, e'⟩, AList.mem_lookup_iff.mp hmem, rfl⟩

theorem length_erase_of_lookup {t : Table N E} {n : N} {e : E} (h : t.lookup n = some e) :
    (t.erase n).entries.length + 1 = t.entries.length := by
  have hkey : n ∈ t.entries.keys := AList.mem_keys.mp (AList.lookup_isSome.mp (by rw [h]; rfl))
  obtain ⟨e', front, back, -, hentries, herase⟩ := exists_of_kerase hkey
  show (t.entries.kerase n).length + 1 = _
  rw [herase, hentries, length_append, length_append, length_cons]
  omega

end Lookup

section Index

variable {N E K : Type} [DecidableEq N] [LinearOrder K] {key : N → E → Option K}
  {t : Table N E} {ix : OrdSet K} {n : N}

/-- Entries of different names have different keys. -/
def Separates (key : N → E → Option K) : Prop :=
  ∀ n n' e e' k, key n e = some k → key n' e' = some k → n = n'

/-- The index holds the keys of the entries and nothing else. -/
def Indexes (key : N → E → Option K) (t : Table N E) (ix : OrdSet K) : Prop :=
  ∀ k, k ∈ ix ↔ ∃ n e, t.lookup n = some e ∧ key n e = some k

/-- The index holds the keys of all entries but one. -/
def IndexesBut (key : N → E → Option K) (n : N) (t : Table N E) (ix : OrdSet K) : Prop :=
  ∀ k, k ∈ ix ↔ ∃ n' e, n' ≠ n ∧ t.lookup n' = some e ∧ key n' e = some k

theorem indexes_empty : Indexes key (∅ : Table N E) ∅ := by
  intro k
  constructor
  · intro h
    exact absurd h (OrdSet.not_mem_empty k)
  · rintro ⟨n, e, h, -⟩
    rw [AList.lookup_empty] at h
    cases h

theorem Indexes.drop (h : Indexes key t ix) {old : Option K}
    (hown : ∀ e k, t.lookup n = some e → key n e = some k → old = some k)
    (hother : ∀ n' e k, old = some k → key n' e = some k → n' = n) :
    IndexesBut key n t (ix.drop old) := by
  intro k
  rw [OrdSet.mem_drop, h k]
  constructor
  · rintro ⟨hk, n', e, hlookup, hkey⟩
    refine ⟨n', e, ?_, hlookup, hkey⟩
    rintro rfl
    exact hk (hown e k hlookup hkey)
  · rintro ⟨n', e, hne, hlookup, hkey⟩
    exact ⟨fun hk => hne (hother n' e k hk hkey), n', e, hlookup, hkey⟩

theorem Indexes.drop_key (h : Indexes key t ix) (hsep : Separates key) {e : E}
    (he : t.lookup n = some e) : IndexesBut key n t (ix.drop (key n e)) := by
  apply h.drop
  · intro e' k he' hk
    rw [Option.some.inj (he.symm.trans he')]
    exact hk
  · intro n' e' k hk hk'
    exact hsep _ _ _ _ _ hk' hk

theorem Indexes.but (h : Indexes key t ix) (hn : t.lookup n = none) : IndexesBut key n t ix := by
  intro k
  rw [h k]
  constructor
  · rintro ⟨n', e, hlookup, hkey⟩
    refine ⟨n', e, ?_, hlookup, hkey⟩
    rintro rfl
    rw [hn] at hlookup
    cases hlookup
  · rintro ⟨n', e, -, hlookup, hkey⟩
    exact ⟨n', e, hlookup, hkey⟩

/-- Putting the key of a new entry in completes the index again. -/
theorem IndexesBut.insert (h : IndexesBut key n t ix) (e : E) :
    Indexes key (t.insert n e) (ix.extend (key n e)) := by
  intro k
  rw [OrdSet.mem_extend, h k]
  constructor
  · rintro (hkey | ⟨n', e', hne, hlookup, hkey⟩)
    · exact ⟨n, e, AList.lookup_insert t, hkey⟩
    · exact ⟨n', e', by rw [AList.lookup_insert_ne hne, hlookup], hkey⟩
  · rintro ⟨n', e', hlookup, hkey⟩
    by_cases hn : n' = n
    · subst hn
      rw [AList.lookup_insert] at hlookup
      obtain rfl := Option.some.inj hlookup
      exact .inl hkey
    · rw [AList.lookup_insert_ne hn] at hlookup
      exact .inr ⟨n', e', hn, hlookup, hkey⟩

theorem IndexesBut.erase (h : IndexesBut key n t ix) : Indexes key (t.erase n) ix := by
  intro k
  rw [h k]
  constructor
  · rintro ⟨n', e, hne, hlookup, hkey⟩
    exact ⟨n', e, by rw [AList.lookup_erase_ne hne, hlookup], hkey⟩
  · rintro ⟨n', e, hlookup, hkey⟩
    by_cases hn : n' = n
    · subst hn
      rw [AList.lookup_erase] at hlookup
      cases hlookup
    · rw [AList.lookup_erase_ne hn] at hlookup
      exact ⟨n', e, hn, hlookup, hkey⟩

omit [DecidableEq N] [LinearOrder K] in
theorem nodup_keys_of (hsep : Separates key) (t : Table N E) :
    (t.entries.filterMap fun p => key p.1 p.2).Nodup := by
  have hnames : t.entries.Pairwise fun p q => p.1 ≠ q.1 := nodupKeys_iff_pairwise.mp t.nodupKeys
  apply List.Pairwise.filterMap (fun p => key p.1 p.2) _ hnames
  intro p q hne k hk k' hk' heq
  rw [heq] at hk
  exact hne (hsep _ _ _ _ _ hk hk')

theorem Indexes.size (hsep : Separates key) (h : Indexes key t ix) :
    ix.size = (t.entries.filter fun p => (key p.1 p.2).isSome).length := by
  have hmem : ∀ k, k ∈ ix.toList ↔ k ∈ t.entries.filterMap fun p => key p.1 p.2 := by
    intro k
    rw [OrdSet.mem_toList, h k, mem_filterMap]
    constructor
    · rintro ⟨n, e, hlookup, hkey⟩
      exact ⟨⟨n, e⟩, AList.mem_lookup_iff.mp hlookup, hkey⟩
    · rintro ⟨⟨n, e⟩, hp, hkey⟩
      exact ⟨n, e, AList.mem_lookup_iff.mpr hp, hkey⟩
  have hperm : ix.toList.Perm (t.entries.filterMap fun p => key p.1 p.2) :=
    (perm_ext_iff_of_nodup ix.nodup (nodup_keys_of hsep t)).mpr hmem
  rw [OrdSet.size, hperm.length_eq, length_filterMap_eq_countP, countP_eq_length_filter]

theorem Indexes.nodup_names (h : Indexes key t ix) {name : K → N}
    (hname : ∀ n e k, key n e = some k → name k = n) : (ix.toList.map name).Nodup := by
  apply List.Nodup.map_on _ ix.nodup
  intro k hk k' hk' heq
  obtain ⟨n, e, hlookup, hkey⟩ := (h k).mp hk
  obtain ⟨n', e', hlookup', hkey'⟩ := (h k').mp hk'
  obtain rfl : n = n' := by rw [← hname n e k hkey, ← hname n' e' k' hkey', heq]
  obtain rfl := Option.some.inj (hlookup.symm.trans hlookup')
  exact Option.some.inj (hkey.symm.trans hkey')

theorem Indexes.size_of_all (hsep : Separates key) (h : Indexes key t ix)
    (hall : ∀ n e, (key n e).isSome) : ix.size = t.entries.length := by
  rw [h.size hsep, filter_eq_self.mpr]
  intro p _
  exact hall p.1 p.2

end Index

/-! ## The names of some entries -/

section Having

variable {N E : Type} [DecidableEq N] {t : Table N E} {p : E → Bool} {n : N}

def Table.having (t : Table N E) (p : E → Bool) : Finset N :=
  ((t.entries.filter fun x => p x.2).map Sigma.fst).toFinset

theorem mem_having : n ∈ Table.having t p ↔ ∃ e, t.lookup n = some e ∧ p e = true := by
  simp only [Table.having, mem_toFinset, mem_map, mem_filter]
  constructor
  · rintro ⟨⟨n', e⟩, ⟨hmem, hp⟩, rfl⟩
    exact ⟨e, AList.mem_lookup_iff.mpr hmem, hp⟩
  · rintro ⟨e, hlookup, hp⟩
    exact ⟨⟨n, e⟩, ⟨AList.mem_lookup_iff.mp hlookup, hp⟩, rfl⟩

theorem card_having (t : Table N E) (p : E → Bool) :
    (Table.having t p).card = (t.entries.filter fun x => p x.2).length := by
  have hnodup : ((t.entries.filter fun x => p x.2).map Sigma.fst).Nodup :=
    List.NodupKeys.sublist filter_sublist t.nodupKeys
  rw [Table.having, toFinset_card_of_nodup hnodup, length_map]

end Having

/-! ## Room for new names -/

section Room

variable {N : Type} [DecidableEq N] {held victims named : Finset N} {capacity : Nat}

/-- When victims that are not named make the room that is missing, the new names fit in. -/
theorem card_after_eviction (hcap : held.card ≤ capacity) (hvictims : victims ⊆ held \ named)
    (hroom : (named \ held).card ≤ capacity - held.card + victims.card) :
    (held \ victims ∪ named).card ≤ capacity := by
  have hheld : victims ⊆ held := hvictims.trans Finset.sdiff_subset
  have hsub : held \ victims ∪ named ⊆ held \ victims ∪ named \ held := by
    intro n hn
    have hout : n ∈ victims → n ∉ named := fun h => (Finset.mem_sdiff.mp (hvictims h)).2
    simp only [Finset.mem_union, Finset.mem_sdiff] at hn ⊢
    tauto
  have hcard := Finset.card_sdiff_add_card_eq_card hheld
  calc (held \ victims ∪ named).card
      ≤ (held \ victims ∪ named \ held).card := Finset.card_le_card hsub
    _ ≤ (held \ victims).card + (named \ held).card := Finset.card_union_le _ _
    _ ≤ capacity := by omega

end Room

end Data

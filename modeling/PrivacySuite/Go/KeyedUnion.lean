import PrivacySuite.Go.Values

/-!
# Unions by key

Two lists are merged through a map from a key of their elements: the elements of the
first list are assigned to it one after the other, those of the second are merged into
what is there. What comes out has at most one element for every key, and which one it
is depends on the elements with that key only: the last of the first list, merged with
all of the second in order.
-/

namespace Go

open List

variable {κ α : Type} [DecidableEq κ] (key : α → κ) (merge : α → α → α)

def assignAll (a : List α) : List (κ × α) := a.foldl (fun m x => mapSet m (key x) x) []

def mergeInto (m : List (κ × α)) (x : α) : List (κ × α) :=
  match m.lookup (key x) with
  | some existing => mapSet m (key x) (merge existing x)
  | none => mapSet m (key x) x

def keyedUnion (a b : List α) : List α :=
  (b.foldl (mergeInto key merge) (assignAll key a)).map Prod.snd

def keyed (k : κ) (xs : List α) : List α := xs.filter fun x => key x = k

/-- A list of elements merged from the left; `none` of an empty one. -/
def mergeAll : List α → Option α
  | [] => none
  | x :: xs => some (xs.foldl merge x)

variable {key merge}

/-! ## Maps that file elements under their keys -/

/-- Distinct keys, and every element under its own. -/
structure Filed (key : α → κ) (m : List (κ × α)) : Prop where
  nodup : (m.map Prod.fst).Nodup
  key_eq : ∀ entry ∈ m, key entry.2 = entry.1

omit [DecidableEq κ] in
theorem filed_nil : Filed key ([] : List (κ × α)) := ⟨nodup_nil, by simp⟩

theorem Filed.mapSet {m : List (κ × α)} (h : Filed key m) {k : κ} {x : α} (hx : key x = k) :
    Filed key (mapSet m k x) := by
  refine ⟨nodup_keys_mapSet h.nodup _ _, fun entry hentry => ?_⟩
  rcases mem_of_mem_mapSet hentry with hold | rfl
  · exact h.key_eq entry hold
  · exact hx

theorem filed_assignAll (a : List α) : Filed key (assignAll key a) :=
  List.foldlRecOn a _ filed_nil fun _ hm _ _ => hm.mapSet rfl

theorem filed_mergeInto (hmerge : ∀ e x, key e = key x → key (merge e x) = key x)
    {m : List (κ × α)} (h : Filed key m) (x : α) : Filed key (mergeInto key merge m x) := by
  unfold mergeInto
  split
  · rename_i existing hlookup
    exact h.mapSet (hmerge existing x (h.key_eq _ (mem_of_lookup hlookup)))
  · exact h.mapSet rfl

/-- The elements of a key in a filed map are what the key looks up. -/
theorem Filed.keyed_eq {m : List (κ × α)} (h : Filed key m) (k : κ) :
    keyed key k (m.map Prod.snd) = (m.lookup k).toList := by
  induction m with
  | nil => rfl
  | cons entry rest ih =>
    obtain ⟨k', x⟩ := entry
    have hx : key x = k' := h.key_eq (k', x) mem_cons_self
    have hnodup := nodup_cons.mp h.nodup
    have hrest := ih ⟨hnodup.2, fun e he => h.key_eq e (mem_cons_of_mem _ he)⟩
    unfold keyed at hrest ⊢
    rw [map_cons, filter_cons, hrest, lookup_cons]
    by_cases hk : k' = k
    · subst hk
      have hnone : rest.lookup k' = none := lookup_eq_none_of_not_mem hnodup.1
      simp [hx, hnone]
    · have hne : (k == k') = false := beq_false_of_ne (Ne.symm hk)
      simp [hx, hk, hne]

/-! ## What a key looks up -/

theorem lookup_assignAll (a : List α) (k : κ) :
    (assignAll key a).lookup k = (keyed key k a).getLast? := by
  induction a using List.reverseRecOn with
  | nil => rfl
  | append_singleton a x ih =>
    unfold assignAll keyed at ih ⊢
    rw [foldl_append, filter_append]
    by_cases hk : key x = k
    · subst hk
      simp [lookup_mapSet_self]
    · rw [foldl_cons, foldl_nil, lookup_mapSet_of_ne _ _ (Ne.symm hk), ih]
      simp [hk]

theorem lookup_mergeInto (m : List (κ × α)) (x : α) (k : κ) :
    (mergeInto key merge m x).lookup k =
      if key x = k then mergeAll merge ((m.lookup k).toList ++ [x]) else m.lookup k := by
  unfold mergeInto
  by_cases hk : key x = k
  · subst hk
    cases hlookup : m.lookup (key x) <;> simp [lookup_mapSet_self, mergeAll]
  · rw [if_neg hk]
    split <;> exact lookup_mapSet_of_ne _ _ (Ne.symm hk)

@[simp] theorem mergeAll_toList (o : Option α) : mergeAll merge o.toList = o := by
  cases o <;> rfl

theorem mergeAll_append (xs ys : List α) :
    mergeAll merge ((mergeAll merge xs).toList ++ ys) = mergeAll merge (xs ++ ys) := by
  cases xs with
  | nil => rfl
  | cons x xs => simp [mergeAll]

theorem lookup_foldl_mergeInto (b : List α) (m : List (κ × α)) (k : κ) :
    (b.foldl (mergeInto key merge) m).lookup k =
      mergeAll merge ((m.lookup k).toList ++ keyed key k b) := by
  induction b generalizing m with
  | nil => simp [keyed]
  | cons x b ih =>
    rw [foldl_cons, ih, lookup_mergeInto]
    by_cases hk : key x = k
    · rw [if_pos hk, mergeAll_append]
      simp [keyed, hk]
    · rw [if_neg hk]
      simp [keyed, hk]

theorem keyed_keyedUnion (hmerge : ∀ e x, key e = key x → key (merge e x) = key x)
    (a b : List α) (k : κ) :
    keyed key k (keyedUnion key merge a b) =
      (mergeAll merge ((keyed key k a).getLast?.toList ++ keyed key k b)).toList := by
  have hfiled : Filed key (b.foldl (mergeInto key merge) (assignAll key a)) :=
    List.foldlRecOn b _ (filed_assignAll a) fun _ hm x _ => filed_mergeInto hmerge hm x
  unfold keyedUnion
  rw [hfiled.keyed_eq, lookup_foldl_mergeInto, lookup_assignAll]

/-! ## Several lists -/

/-- The union of several lists; a single one stays as it is. -/
def unionAll (key : α → κ) (merge : α → α → α) : List (List α) → List α
  | [] => []
  | first :: rest => rest.foldl (keyedUnion key merge) first

/-- The elements with one key in the order they are merged: of several lists, the last
of the first list and all of the others. -/
def contenders (key : α → κ) (k : κ) : List (List α) → List α
  | [] => []
  | [only] => keyed key k only
  | first :: second :: rest =>
      (keyed key k first).getLast?.toList ++ (second :: rest).flatMap (keyed key k)

theorem keyed_unionAll (hmerge : ∀ e x, key e = key x → key (merge e x) = key x)
    (first second : List α) (rest : List (List α)) (k : κ) :
    keyed key k (unionAll key merge (first :: second :: rest)) =
      (mergeAll merge (contenders key k (first :: second :: rest))).toList := by
  have hlast : ∀ o : Option α, o.toList.getLast? = o := by
    intro o
    cases o <;> rfl
  show keyed key k (rest.foldl (keyedUnion key merge) (keyedUnion key merge first second)) =
    (mergeAll merge ((keyed key k first).getLast?.toList ++
      (second :: rest).flatMap (keyed key k))).toList
  induction rest using List.reverseRecOn with
  | nil => simp [keyed_keyedUnion hmerge]
  | append_singleton rest c ih =>
    rw [foldl_append, foldl_cons, foldl_nil, keyed_keyedUnion hmerge, ih, hlast,
      mergeAll_append]
    simp

theorem contenders_eq_nil_iff (k : κ) (lists : List (List α)) :
    contenders key k lists = [] ↔ ∀ l ∈ lists, keyed key k l = [] := by
  match lists with
  | [] => simp [contenders]
  | [only] => simp [contenders]
  | first :: second :: rest =>
    rw [contenders, append_eq_nil_iff, Option.toList_eq_nil_iff, getLast?_eq_none_iff,
      flatMap_eq_nil_iff, forall_mem_cons, forall_mem_cons, forall_mem_cons]

end Go

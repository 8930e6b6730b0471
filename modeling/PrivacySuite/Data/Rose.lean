import PrivacySuite.Go.Phase

/-!
# Finitely branching trees and walks over them

A tree whose nodes carry a label and a list of subtrees, and the ways a program goes
through one:

* `annotateM` relabels every node from what it inherits from its parent, and may fail;
* `walk` goes through the nodes in pre-order with a running state, and numbers them;
* `listing` is the pre-order list of the labels, each with the number of its parent.

A walk that inherits a context is a relabelling followed by a loop over the listing
(`Walks.ok_iff`), and the listing determines the tree (`listing_injective`).
-/

namespace Data

open List

/-- A tree with a label and a list of subtrees at every node. -/
inductive Rose (α : Type) where
  | node (label : α) (children : List (Rose α))

namespace Rose

variable {α β γ σ ε : Type}

def label : Rose α → α
  | .node a _ => a

def children : Rose α → List (Rose α)
  | .node _ ts => ts

mutual

def size : Rose α → Nat
  | .node _ ts => sizeAll ts + 1

def sizeAll : List (Rose α) → Nat
  | [] => 0
  | t :: ts => t.size + sizeAll ts

end

mutual

def labels : Rose α → List α
  | .node a ts => a :: labelsAll ts

def labelsAll : List (Rose α) → List α
  | [] => []
  | t :: ts => t.labels ++ labelsAll ts

end

mutual

/-- The labels in pre-order, each with the number of its parent; the nodes are
numbered from `i` on, and `p` stands for the parent of the root. -/
def listing (p : Option Nat) (i : Nat) : Rose α → List (Option Nat × α)
  | .node a ts => (p, a) :: listingAll (some i) (i + 1) ts

def listingAll (p : Option Nat) (i : Nat) : List (Rose α) → List (Option Nat × α)
  | [] => []
  | t :: ts => t.listing p i ++ listingAll p (i + t.size) ts

end

mutual

def map (f : α → β) : Rose α → Rose β
  | .node a ts => .node (f a) (mapAll f ts)

def mapAll (f : α → β) : List (Rose α) → List (Rose β)
  | [] => []
  | t :: ts => t.map f :: mapAll f ts

end

/-! ## Sizes and lists -/

mutual

theorem length_listing (p : Option Nat) (i : Nat) (t : Rose α) :
    (t.listing p i).length = t.size := by
  match t with
  | .node a ts => rw [listing, length_cons, length_listingAll, size]

theorem length_listingAll (p : Option Nat) (i : Nat) (ts : List (Rose α)) :
    (listingAll p i ts).length = sizeAll ts := by
  match ts with
  | [] => rfl
  | t :: ts => rw [listingAll, length_append, length_listing, length_listingAll, sizeAll]

end

mutual

theorem map_snd_listing (p : Option Nat) (i : Nat) (t : Rose α) :
    (t.listing p i).map Prod.snd = t.labels := by
  match t with
  | .node a ts => rw [listing, map_cons, map_snd_listingAll, labels]

theorem map_snd_listingAll (p : Option Nat) (i : Nat) (ts : List (Rose α)) :
    (listingAll p i ts).map Prod.snd = labelsAll ts := by
  match ts with
  | [] => rfl
  | t :: ts => rw [listingAll, map_append, map_snd_listing, map_snd_listingAll, labelsAll]

end

theorem snd_mem_labels {p : Option Nat} {i : Nat} {t : Rose α} {entry : Option Nat × α}
    (h : entry ∈ t.listing p i) : entry.2 ∈ t.labels := by
  rw [← map_snd_listing p i]
  exact mem_map_of_mem h

theorem length_labels (t : Rose α) : t.labels.length = t.size := by
  rw [← map_snd_listing none 0, length_map, length_listing]

mutual

theorem size_map (f : α → β) (t : Rose α) : (t.map f).size = t.size := by
  match t with
  | .node a ts => rw [map, size, size, sizeAll_mapAll]

theorem sizeAll_mapAll (f : α → β) (ts : List (Rose α)) : sizeAll (mapAll f ts) = sizeAll ts := by
  match ts with
  | [] => rfl
  | t :: ts => rw [mapAll, sizeAll, sizeAll, size_map, sizeAll_mapAll]

end

mutual

theorem listing_map (f : α → β) (p : Option Nat) (i : Nat) (t : Rose α) :
    (t.map f).listing p i = (t.listing p i).map (Prod.map id f) := by
  match t with
  | .node a ts => rw [map, listing, listing, map_cons, listingAll_mapAll]; rfl

theorem listingAll_mapAll (f : α → β) (p : Option Nat) (i : Nat) (ts : List (Rose α)) :
    listingAll p i (mapAll f ts) = (listingAll p i ts).map (Prod.map id f) := by
  match ts with
  | [] => rfl
  | t :: ts =>
    rw [mapAll, listingAll, listingAll, map_append, listing_map, size_map,
      listingAll_mapAll]

end

mutual

/-- A node hangs on the given parent or on a node of the tree. -/
theorem parent_of_mem_listing {p : Option Nat} {i : Nat} {t : Rose α} {entry : Option Nat × α}
    (h : entry ∈ t.listing p i) : entry.1 = p ∨ ∃ n, entry.1 = some n ∧ n < i + t.size := by
  match t with
  | .node a ts =>
    rw [listing, mem_cons] at h
    rcases h with rfl | h
    · exact .inl rfl
    · rw [size]
      rcases parent_of_mem_listingAll h with hi | ⟨n, hn, hlt⟩
      · exact .inr ⟨i, hi, by omega⟩
      · exact .inr ⟨n, hn, by omega⟩

theorem parent_of_mem_listingAll {p : Option Nat} {i : Nat} {ts : List (Rose α)}
    {entry : Option Nat × α} (h : entry ∈ listingAll p i ts) :
    entry.1 = p ∨ ∃ n, entry.1 = some n ∧ n < i + sizeAll ts := by
  match ts with
  | [] => cases h
  | t :: ts =>
    rw [listingAll, mem_append] at h
    rw [sizeAll]
    rcases h with h | h
    · rcases parent_of_mem_listing h with hp | ⟨n, hn, hlt⟩
      · exact .inl hp
      · exact .inr ⟨n, hn, by omega⟩
    · rcases parent_of_mem_listingAll h with hp | ⟨n, hn, hlt⟩
      · exact .inl hp
      · exact .inr ⟨n, hn, by omega⟩

end

/-! ## The listing determines the tree -/

/-- The first entry, if there is one, hangs on a node before `i` and not on `p`: a
list of subtrees of `p` numbered from `i` on cannot go on here. -/
def EndsBefore (p : Option Nat) (i : Nat) (rest : List (Option Nat × α)) : Prop :=
  ∀ entry ∈ rest.head?, entry.1 ≠ p ∧ ∀ n, entry.1 = some n → n < i

theorem listingAll_head {p : Option Nat} {i : Nat} {ts : List (Rose α)}
    {rest : List (Option Nat × α)} {entry : Option Nat × α}
    (h : entry ∈ (listingAll p i ts ++ rest).head?) : entry.1 = p ∨ entry ∈ rest.head? := by
  cases ts with
  | nil => exact .inr h
  | cons t ts =>
    obtain ⟨a, us⟩ := t
    simp only [listingAll, listing, cons_append, head?_cons, Option.mem_some_iff] at h
    exact .inl (congrArg Prod.fst h.symm)

mutual

theorem listing_append_injective {p : Option Nat} {i : Nat} {t t' : Rose α}
    {rest rest' : List (Option Nat × α)} (hrest : EndsBefore (some i) (i + 1) rest)
    (hrest' : EndsBefore (some i) (i + 1) rest')
    (h : t.listing p i ++ rest = t'.listing p i ++ rest') : t = t' ∧ rest = rest' := by
  match t, t' with
  | .node a ts, .node a' ts' =>
    simp only [listing, cons_append, List.cons.injEq, Prod.mk.injEq] at h
    obtain ⟨⟨-, rfl⟩, htail⟩ := h
    have hnext : ∀ n, some i = some n → n < i + 1 := by
      intro n hn
      have := Option.some.inj hn
      omega
    obtain ⟨rfl, hrests⟩ := listingAll_append_injective hnext hrest hrest' htail
    exact ⟨rfl, hrests⟩

theorem listingAll_append_injective {p : Option Nat} {i : Nat} (hp : ∀ n, p = some n → n < i)
    {ts ts' : List (Rose α)} {rest rest' : List (Option Nat × α)} (hrest : EndsBefore p i rest)
    (hrest' : EndsBefore p i rest')
    (h : listingAll p i ts ++ rest = listingAll p i ts' ++ rest') : ts = ts' ∧ rest = rest' := by
  match ts, ts' with
  | [], [] => exact ⟨rfl, h⟩
  | [], .node a us :: ts' =>
    -- the other list would start with a subtree of `p`, which `rest` does not
    have hhead : (p, a) ∈ rest.head? := by
      rw [show rest = _ from h]
      rfl
    exact absurd rfl (hrest _ hhead).1
  | .node a us :: ts, [] =>
    have hhead : (p, a) ∈ rest'.head? := by
      rw [show rest' = _ from h.symm]
      rfl
    exact absurd rfl (hrest' _ hhead).1
  | t :: ts, t' :: ts' =>
    rw [listingAll, listingAll, append_assoc, append_assoc] at h
    -- behind the first subtree come subtrees of `p` or the rest, none of them below it
    have hends : ∀ {us : List (Rose α)} {j : Nat} {r : List (Option Nat × α)},
        EndsBefore p i r → EndsBefore (some i) (i + 1) (listingAll p j us ++ r) := by
      intro us j r hr entry hentry
      have hlt : ∀ n, entry.1 = some n → n < i := by
        rcases listingAll_head hentry with hfst | hmem
        · rw [hfst]
          exact hp
        · exact (hr entry hmem).2
      refine ⟨?_, ?_⟩
      · intro hi
        exact absurd (hlt i hi) (Nat.lt_irrefl i)
      · intro n hn
        exact Nat.lt_succ_of_lt (hlt n hn)
    obtain ⟨rfl, htail⟩ := listing_append_injective (hends hrest) (hends hrest') h
    have hlater : ∀ {r : List (Option Nat × α)},
        EndsBefore p i r → EndsBefore p (i + t.size) r := by
      intro r hr entry hentry
      refine ⟨(hr entry hentry).1, fun n hn => ?_⟩
      have := (hr entry hentry).2 n hn
      omega
    obtain ⟨rfl, hrests⟩ := listingAll_append_injective (fun n hn => by have := hp n hn; omega)
      (hlater hrest) (hlater hrest') htail
    exact ⟨rfl, hrests⟩

end

variable {t : Rose α} {R : α → β → Prop} {u : Rose β}

theorem listing_injective {t' : Rose α} (h : t.listing none 0 = t'.listing none 0) : t = t' := by
  have hnil : EndsBefore (some 0) 1 ([] : List (Option Nat × α)) := by
    intro entry hentry
    cases hentry
  have happend : t.listing none 0 ++ [] = t'.listing none 0 ++ [] := by rw [h]
  exact (listing_append_injective hnil hnil happend).1

/-! ## Relabelling -/

section Annotate

variable (next : β → γ) (head : γ → α → Except ε β)

mutual

/-- Relabel every node from what it inherits; `next` is what its children inherit. -/
def annotateM (c : γ) : Rose α → Except ε (Rose β)
  | .node a ts => do
      let b ← head c a
      let us ← annotateAll (next b) ts
      return .node b us

def annotateAll (c : γ) : List (Rose α) → Except ε (List (Rose β))
  | [] => .ok []
  | t :: ts => do
      let u ← annotateM c t
      let us ← annotateAll c ts
      return u :: us

end

variable {next head}

variable {c : γ} {ts : List (Rose α)}

theorem annotateM_node_eq_ok {a : α} {u : Rose β} :
    annotateM next head c (.node a ts) = .ok u ↔
      ∃ b us, head c a = .ok b ∧ annotateAll next head (next b) ts = .ok us ∧ u = .node b us := by
  rw [annotateM]
  simp only [Phase.bind_eq_ok, Phase.pure_eq_ok, exists_and_left, eq_comm (a := u)]

theorem annotateAll_cons_eq_ok {t : Rose α} {us : List (Rose β)} :
    annotateAll next head c (t :: ts) = .ok us ↔
      ∃ v vs, annotateM next head c t = .ok v ∧ annotateAll next head c ts = .ok vs ∧
        us = v :: vs := by
  rw [annotateAll]
  simp only [Phase.bind_eq_ok, Phase.pure_eq_ok, exists_and_left, eq_comm (a := us)]

end Annotate

/-! ## Trees of one shape -/

mutual

/-- The trees have the same shape, and their labels are related at every node. -/
def Rel (R : α → β → Prop) : Rose α → Rose β → Prop
  | .node a ts, .node b us => R a b ∧ RelAll R ts us

def RelAll (R : α → β → Prop) : List (Rose α) → List (Rose β) → Prop
  | [], [] => True
  | t :: ts, u :: us => Rel R t u ∧ RelAll R ts us
  | _, _ => False

end

/-- Induction over two trees of one shape. -/
theorem Rel.ind {P : Rose α → Rose β → Prop} {Q : List (Rose α) → List (Rose β) → Prop}
    (hnode : ∀ {a b ts us}, R a b → Q ts us → P (.node a ts) (.node b us)) (hnil : Q [] [])
    (hcons : ∀ {t u ts us}, P t u → Q ts us → Q (t :: ts) (u :: us)) (h : Rel R t u) : P t u := by
  refine @Rose.rec α (fun t => ∀ u, Rel R t u → P t u) (fun ts => ∀ us, RelAll R ts us → Q ts us)
    ?_ ?_ ?_ t u h
  · rintro a ts ih ⟨b, us⟩ h
    exact hnode h.1 (ih us h.2)
  · intro us h
    match us, h with
    | [], _ => exact hnil
  · intro t ts iht ihts us h
    match us, h with
    | u :: us, h => exact hcons (iht u h.1) (ihts us h.2)

/-- Two entries of listings, with one parent and related labels. -/
def SameEntry (R : α → β → Prop) (e : Option Nat × α) (e' : Option Nat × β) : Prop :=
  e.1 = e'.1 ∧ R e.2 e'.2

theorem Rel.size_eq_and_listing (h : Rel R t u) :
    t.size = u.size ∧ ∀ p i, List.Forall₂ (SameEntry R) (t.listing p i) (u.listing p i) := by
  refine h.ind
    (P := fun t u => t.size = u.size ∧
      ∀ p i, List.Forall₂ (SameEntry R) (t.listing p i) (u.listing p i))
    (Q := fun ts us => sizeAll ts = sizeAll us ∧
      ∀ p i, List.Forall₂ (SameEntry R) (listingAll p i ts) (listingAll p i us))
    ?_ ⟨rfl, fun _ _ => .nil⟩ ?_
  · intro a b ts us hab hts
    exact ⟨congrArg (· + 1) hts.1, fun p i => .cons ⟨rfl, hab⟩ (hts.2 _ _)⟩
  · intro t u ts us ht hts
    refine ⟨congrArg₂ (· + ·) ht.1 hts.1, fun p i => ?_⟩
    rw [listingAll, listingAll, ← ht.1]
    exact rel_append (ht.2 _ _) (hts.2 _ _)

theorem Rel.labels (h : Rel R t u) : List.Forall₂ R t.labels u.labels := by
  rw [← map_snd_listing none 0, ← map_snd_listing none 0, forall₂_map_left_iff,
    forall₂_map_right_iff]
  exact (h.size_eq_and_listing.2 none 0).imp fun _ _ he => he.2

theorem Rel.of_common {α' : Type} {S : α' → β → Prop} {t' : Rose α'} (h : Rel R t u)
    (h' : Rel S t' u) : Rel (fun a a' => ∃ b, R a b ∧ S a' b) t t' := by
  refine h.ind (P := fun t u => ∀ t', Rel S t' u → Rel (fun a a' => ∃ b, R a b ∧ S a' b) t t')
    (Q := fun ts us => ∀ ts', RelAll S ts' us → RelAll (fun a a' => ∃ b, R a b ∧ S a' b) ts ts')
    ?_ ?_ ?_ t' h'
  · rintro a b ts us hab hts ⟨a', ts'⟩ h'
    exact ⟨⟨b, hab, h'.1⟩, hts ts' h'.2⟩
  · intro ts' h'
    match ts', h' with
    | [], _ => trivial
  · intro t u ts us ht hts ts' h'
    match ts', h' with
    | t' :: ts', h' => exact ⟨ht t' h'.1, hts ts' h'.2⟩

theorem Rel.imp {S : α → β → Prop} (hRS : ∀ {a b}, R a b → S a b) (h : Rel R t u) : Rel S t u :=
  h.ind (Q := RelAll S) (fun hab hts => ⟨hRS hab, hts⟩) trivial (fun ht hts => ⟨ht, hts⟩)

theorem Rel.exists_of_mem_labels (h : Rel R t u) {b : β} (hb : b ∈ u.labels) :
    ∃ a ∈ t.labels, R a b := by
  obtain ⟨i, hi, rfl⟩ := getElem_of_mem hb
  have hlen := h.labels.length_eq
  exact ⟨t.labels.get ⟨i, hlen ▸ hi⟩, get_mem _ _, h.labels.get (hlen ▸ hi) hi⟩

theorem Rel.exists_of_mem_labels_left (h : Rel R t u) {a : α} (ha : a ∈ t.labels) :
    ∃ b ∈ u.labels, R a b := by
  obtain ⟨i, hi, rfl⟩ := getElem_of_mem ha
  have hlen := h.labels.length_eq
  exact ⟨u.labels.get ⟨i, hlen ▸ hi⟩, get_mem _ _, h.labels.get hi (hlen ▸ hi)⟩

theorem rel_map_right {R : α → γ → Prop} {f : β → γ} (h : Rel (fun a b => R a (f b)) t u) :
    Rel R t (u.map f) :=
  h.ind (P := fun t u => Rel R t (u.map f)) (Q := fun ts us => RelAll R ts (mapAll f us))
    (fun hab hts => ⟨hab, hts⟩) trivial (fun ht hts => ⟨ht, hts⟩)

theorem eq_map_of_rel {f : β → α} (h : Rel (fun a b => a = f b) t u) : t = u.map f :=
  h.ind (P := fun t u => t = u.map f) (Q := fun ts us => ts = mapAll f us)
    (fun hab hts => congrArg₂ Rose.node hab hts) rfl (fun ht hts => congrArg₂ List.cons ht hts)

section AnnotateRel

variable {next : β → γ} {head : γ → α → Except ε β}

mutual

theorem rel_of_annotateM {R : α → β → Prop} (hhead : ∀ {c a b}, head c a = .ok b → R a b) {c : γ}
    {t : Rose α} {u : Rose β} (h : annotateM next head c t = .ok u) : Rel R t u := by
  match t with
  | .node a ts =>
    obtain ⟨b, us, hb, hus, rfl⟩ := annotateM_node_eq_ok.mp h
    exact ⟨hhead hb, relAll_of_annotateAll hhead hus⟩

theorem relAll_of_annotateAll {R : α → β → Prop} (hhead : ∀ {c a b}, head c a = .ok b → R a b)
    {c : γ} {ts : List (Rose α)} {us : List (Rose β)} (h : annotateAll next head c ts = .ok us) :
    RelAll R ts us := by
  match ts with
  | [] =>
    obtain rfl := Except.ok.inj h
    trivial
  | t :: ts =>
    obtain ⟨v, vs, hv, hvs, rfl⟩ := annotateAll_cons_eq_ok.mp h
    exact ⟨rel_of_annotateM hhead hv, relAll_of_annotateAll hhead hvs⟩

end

theorem size_of_annotateM {c : γ} {t : Rose α} {u : Rose β}
    (h : annotateM next head c t = .ok u) : u.size = t.size :=
  (rel_of_annotateM (R := fun _ _ => True) (fun _ => trivial) h).size_eq_and_listing.1.symm

theorem annotateM_of_rel {f : α → Except ε β} (h : Rel (fun a b => f a = .ok b) t u) :
    annotateM (fun _ => ()) (fun _ => f) () t = .ok u := by
  refine h.ind (P := fun t u => annotateM (fun _ => ()) (fun _ => f) () t = .ok u)
    (Q := fun ts us => annotateAll (fun _ => ()) (fun _ => f) () ts = .ok us) ?_ rfl ?_
  · intro a b ts us hab hts
    exact annotateM_node_eq_ok.mpr ⟨b, us, hab, hts, rfl⟩
  · intro t u ts us ht hts
    exact annotateAll_cons_eq_ok.mpr ⟨u, us, ht, hts, rfl⟩

end AnnotateRel

section AnnotateAlike

variable {α' β' γ' ε' : Type} {R : α → α' → Prop} {C : γ → γ' → Prop} {S : β → β' → Prop}
  {next : β → γ} {next' : β' → γ'} {head : γ → α → Except ε β} {head' : γ' → α' → Except ε' β'}

/-- Relabelling related trees, when it goes alike at every node. -/
theorem annotateM_alike {u : Rose α'}
    (hhead : ∀ {c d a b}, C c d → R a b → Phase.Alike S (head c a) (head' d b))
    (hnext : ∀ {b b'}, S b b' → C (next b) (next' b')) {c : γ} {d : γ'} (hc : C c d)
    (h : Rel R t u) :
    Phase.Alike (Rel S) (annotateM next head c t) (annotateM next' head' d u) := by
  refine h.ind
    (P := fun t u => ∀ c d, C c d →
      Phase.Alike (Rel S) (annotateM next head c t) (annotateM next' head' d u))
    (Q := fun ts us => ∀ c d, C c d →
      Phase.Alike (RelAll S) (annotateAll next head c ts) (annotateAll next' head' d us))
    ?_ (fun _ _ _ => Phase.alike_ok trivial) ?_ c d hc
  · intro a b ts us hab hts c d hc
    rw [annotateM, annotateM]
    refine (hhead hc hab).bind fun x y hxy => ?_
    refine (hts _ _ (hnext hxy)).bind fun vs ws hvw => ?_
    exact Phase.alike_ok ⟨hxy, hvw⟩
  · intro t u ts us ht hts c d hc
    rw [annotateAll, annotateAll]
    refine (ht c d hc).bind fun x y hxy => ?_
    refine (hts c d hc).bind fun vs ws hvw => ?_
    exact Phase.alike_ok ⟨hxy, hvw⟩

end AnnotateAlike

/-! ## Walks -/

/-- `call` goes through a tree in pre-order. At a node it reads the label with what
is inherited (`head`), updates the state (`put`), and hands its own number and what
its children inherit (`next`) on to them. A parent is referred to by `name`. -/
structure Walks {π : Type} (name : Option Nat → π) (next : β → γ) (head : γ → α → Except ε β)
    (put : π → β → σ → Except ε σ) (index : σ → Nat) (call : π → γ → Rose α → σ → Except ε σ)
    (callAll : π → γ → List (Rose α) → σ → Except ε σ) : Prop where
  node : ∀ {p c a ts s s'}, call p c (.node a ts) s = .ok s' ↔
    ∃ b s₁, head c a = .ok b ∧ put p b s = .ok s₁ ∧
      callAll (name (some (index s))) (next b) ts s₁ = .ok s'
  nil : ∀ {p c s s'}, callAll p c [] s = .ok s' ↔ s' = s
  cons : ∀ {p c t ts s s'}, callAll p c (t :: ts) s = .ok s' ↔
    ∃ s₁, call p c t s = .ok s₁ ∧ callAll p c ts s₁ = .ok s'
  advance : ∀ {p b s s₁}, put p b s = .ok s₁ → index s₁ = index s + 1

namespace Walks

variable {π : Type} {name : Option Nat → π} {next : β → γ} {head : γ → α → Except ε β}
  {put : π → β → σ → Except ε σ} {index : σ → Nat} {call : π → γ → Rose α → σ → Except ε σ}
  {callAll : π → γ → List (Rose α) → σ → Except ε σ}

def loop (name : Option Nat → π) (put : π → β → σ → Except ε σ)
    (entries : List (Option Nat × β)) (s : σ) : Except ε σ :=
  entries.foldlM (fun s entry => put (name entry.1) entry.2 s) s

variable {entries : List (Option Nat × β)} {s s' : σ}

theorem loop_cons {entry : Option Nat × β} :
    loop name put (entry :: entries) s = .ok s' ↔
      ∃ s₁, put (name entry.1) entry.2 s = .ok s₁ ∧ loop name put entries s₁ = .ok s' :=
  Phase.foldlM_cons_eq_ok

theorem loop_nil : loop name put [] s = .ok s' ↔ s' = s := Phase.foldlM_nil_eq_ok

theorem index_of_loop (hw : Walks name next head put index call callAll)
    (h : loop name put entries s = .ok s') : index s' = index s + entries.length := by
  induction entries generalizing s with
  | nil => rw [loop_nil.mp h, length_nil, Nat.add_zero]
  | cons entry entries ih =>
    obtain ⟨s₁, hput, hrest⟩ := loop_cons.mp h
    rw [ih hrest, hw.advance hput, length_cons]
    omega

mutual

/-- A walk is a relabelling and a loop over the listing of its result. -/
theorem ok_iff (hw : Walks name next head put index call callAll) {p : Option Nat} {c : γ}
    {t : Rose α} {s s' : σ} :
    call (name p) c t s = .ok s' ↔
      ∃ u, annotateM next head c t = .ok u ∧ loop name put (u.listing p (index s)) s = .ok s' := by
  match t with
  | .node a ts =>
    simp only [hw.node, hw.all_ok_iff, annotateM_node_eq_ok]
    constructor
    · rintro ⟨b, s₁, hb, hput, us, hus, hloop⟩
      refine ⟨_, ⟨b, us, hb, hus, rfl⟩, loop_cons.mpr ⟨s₁, hput, ?_⟩⟩
      rwa [hw.advance hput] at hloop
    · rintro ⟨u, ⟨b, us, hb, hus, rfl⟩, hloop⟩
      obtain ⟨s₁, hput, hrest⟩ := loop_cons.mp hloop
      refine ⟨b, s₁, hb, hput, us, hus, ?_⟩
      rwa [hw.advance hput]

theorem all_ok_iff (hw : Walks name next head put index call callAll) {p : Option Nat} {c : γ}
    {ts : List (Rose α)} {s s' : σ} :
    callAll (name p) c ts s = .ok s' ↔
      ∃ us, annotateAll next head c ts = .ok us ∧
        loop name put (listingAll p (index s) us) s = .ok s' := by
  match ts with
  | [] =>
    rw [hw.nil]
    constructor
    · intro h
      exact ⟨[], rfl, loop_nil.mpr h⟩
    · rintro ⟨us, hus, hloop⟩
      obtain rfl := Except.ok.inj hus
      exact loop_nil.mp hloop
  | t :: ts =>
    simp only [hw.cons, hw.ok_iff, hw.all_ok_iff, annotateAll_cons_eq_ok]
    constructor
    · rintro ⟨s₁, ⟨v, hv, hfirst⟩, vs, hvs, hrest⟩
      have hindex := hw.index_of_loop hfirst
      rw [length_listing] at hindex
      refine ⟨_, ⟨v, vs, hv, hvs, rfl⟩, Phase.foldlM_append_eq_ok.mpr ⟨s₁, hfirst, ?_⟩⟩
      rwa [hindex] at hrest
    · rintro ⟨us, ⟨v, vs, hv, hvs, rfl⟩, hloop⟩
      obtain ⟨s₁, hfirst, hrest⟩ := Phase.foldlM_append_eq_ok.mp hloop
      have hindex := hw.index_of_loop hfirst
      rw [length_listing] at hindex
      refine ⟨s₁, ⟨v, hv, hfirst⟩, vs, hvs, ?_⟩
      rwa [hindex]

end

end Walks

/-- `build` relabels a tree while it updates a state with every new label, in
pre-order. -/
structure Builds (next : β → γ) (head : γ → α → Except ε β) (put : β → σ → Except ε σ)
    (build : γ → Rose α → σ → Except ε (Rose β × σ))
    (buildAll : γ → List (Rose α) → σ → Except ε (List (Rose β) × σ)) : Prop where
  node : ∀ {c a ts s u s'}, build c (.node a ts) s = .ok (u, s') ↔
    ∃ b s₁ us, head c a = .ok b ∧ put b s = .ok s₁ ∧ buildAll (next b) ts s₁ = .ok (us, s') ∧
      u = .node b us
  nil : ∀ {c s us s'}, buildAll c [] s = .ok (us, s') ↔ us = [] ∧ s' = s
  cons : ∀ {c t ts s us s'}, buildAll c (t :: ts) s = .ok (us, s') ↔
    ∃ v s₁ vs, build c t s = .ok (v, s₁) ∧ buildAll c ts s₁ = .ok (vs, s') ∧ us = v :: vs

namespace Builds

variable {next : β → γ} {head : γ → α → Except ε β} {put : β → σ → Except ε σ}
  {build : γ → Rose α → σ → Except ε (Rose β × σ)}
  {buildAll : γ → List (Rose α) → σ → Except ε (List (Rose β) × σ)}

def loop (put : β → σ → Except ε σ) (bs : List β) (s : σ) : Except ε σ :=
  bs.foldlM (fun s b => put b s) s

variable {s s' : σ}

theorem loop_cons {b : β} {bs : List β} :
    loop put (b :: bs) s = .ok s' ↔ ∃ s₁, put b s = .ok s₁ ∧ loop put bs s₁ = .ok s' :=
  Phase.foldlM_cons_eq_ok

theorem loop_nil : loop put [] s = .ok s' ↔ s' = s := Phase.foldlM_nil_eq_ok

mutual

/-- The new tree is the relabelled one, and the state has gone through its labels. -/
theorem ok_iff (hb : Builds next head put build buildAll) {c : γ} {t : Rose α} {s s' : σ}
    {u : Rose β} :
    build c t s = .ok (u, s') ↔
      annotateM next head c t = .ok u ∧ loop put u.labels s = .ok s' := by
  match t with
  | .node a ts =>
    simp only [hb.node, hb.all_ok_iff, annotateM_node_eq_ok]
    constructor
    · rintro ⟨b, s₁, us, hb, hput, ⟨hus, hloop⟩, rfl⟩
      exact ⟨⟨b, us, hb, hus, rfl⟩, loop_cons.mpr ⟨s₁, hput, hloop⟩⟩
    · rintro ⟨⟨b, us, hb, hus, rfl⟩, hloop⟩
      obtain ⟨s₁, hput, hrest⟩ := loop_cons.mp hloop
      exact ⟨b, s₁, us, hb, hput, ⟨hus, hrest⟩, rfl⟩

theorem all_ok_iff (hb : Builds next head put build buildAll) {c : γ} {ts : List (Rose α)}
    {s s' : σ} {us : List (Rose β)} :
    buildAll c ts s = .ok (us, s') ↔
      annotateAll next head c ts = .ok us ∧ loop put (labelsAll us) s = .ok s' := by
  match ts with
  | [] =>
    rw [hb.nil]
    constructor
    · rintro ⟨rfl, h⟩
      exact ⟨rfl, loop_nil.mpr h⟩
    · rintro ⟨hus, hloop⟩
      obtain rfl := Except.ok.inj hus
      exact ⟨rfl, loop_nil.mp hloop⟩
  | t :: ts =>
    simp only [hb.cons, hb.ok_iff, hb.all_ok_iff, annotateAll_cons_eq_ok]
    constructor
    · rintro ⟨v, s₁, vs, ⟨hv, hfirst⟩, ⟨hvs, hrest⟩, rfl⟩
      exact ⟨⟨v, vs, hv, hvs, rfl⟩, Phase.foldlM_append_eq_ok.mpr ⟨s₁, hfirst, hrest⟩⟩
    · rintro ⟨⟨v, vs, hv, hvs, rfl⟩, hloop⟩
      obtain ⟨s₁, hfirst, hrest⟩ := Phase.foldlM_append_eq_ok.mp hloop
      exact ⟨v, s₁, vs, ⟨hv, hfirst⟩, ⟨hvs, hrest⟩, rfl⟩

end

end Builds

end Rose

end Data

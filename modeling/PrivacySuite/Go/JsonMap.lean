import PrivacySuite.Go.Json
import PrivacySuite.Go.Values

/-!
# JSON objects as Go maps

`json.Unmarshal` into a `map[string]json.RawMessage`, and `json.Marshal` of one: of
members with one key the last counts, and the keys are written in order.
-/

namespace Go

/-- Decoding into a map. `null` leaves the nil map, which is `some none`: it reads as
an empty one, and assigning to it panics. -/
def intoMap : Json → Option (Option (List (String × Json)))
  | .null => some none
  | .obj entries => some (some (entries.foldl (fun m entry => mapSet m entry.1 entry.2) []))
  | _ => none

/-- `json.Marshal` of a map. -/
def marshalMap (m : List (String × Json)) : Json :=
  .obj (m.insertionSort fun a b => a.1 ≤ b.1)

/-- Decoding into a string whose error is ignored. -/
def lenientString (v : Option Json) : String := (v.bind Json.asString).getD ""

/-- Decoding into a slice of strings whose error is ignored: an item of another type
is left empty. -/
def lenientStrings (v : Option Json) : List String :=
  ((v.bind Json.asArray).getD []).map fun item => item.asString.getD ""

theorem nodup_keys_intoMap {v : Json} {m : List (String × Json)} (h : intoMap v = some (some m)) :
    (m.map Prod.fst).Nodup := by
  cases v with
  | obj entries =>
    obtain rfl := Option.some.inj (Option.some.inj h)
    exact List.foldlRecOn entries _
      (motive := fun m : List (String × Json) => (m.map Prod.fst).Nodup)
      List.nodup_nil fun _ hm _ _ => nodup_keys_mapSet hm _ _
  | null | bool | num | str | arr => cases h

theorem lookup_of_marshalMap_eq {m m' : List (String × Json)} (h : marshalMap m = marshalMap m')
    (hm' : (m'.map Prod.fst).Nodup) {k : String} {v : Json} (hk : m.lookup k = some v) :
    m'.lookup k = some v := by
  have hsorted := Json.obj.inj h
  have hperm : m.Perm m' :=
    ((List.perm_insertionSort _ m).symm.trans (hsorted ▸ List.perm_insertionSort _ m'))
  exact lookup_of_mem hm' (hperm.mem_iff.mp (mem_of_lookup hk))

theorem lookup_insertionSort {m : List (String × Json)} (hm : (m.map Prod.fst).Nodup) (k : String) :
    (m.insertionSort fun a b => a.1 ≤ b.1).lookup k = m.lookup k := by
  have hperm : (m.insertionSort fun a b => a.1 ≤ b.1).Perm m := List.perm_insertionSort _ m
  have hsorted : ((m.insertionSort fun a b => a.1 ≤ b.1).map Prod.fst).Nodup :=
    (hperm.map Prod.fst).nodup_iff.mpr hm
  refine Option.ext fun v => ⟨fun h => ?_, fun h => ?_⟩
  · exact lookup_of_mem hm (hperm.mem_iff.mp (mem_of_lookup h))
  · exact lookup_of_mem hsorted (hperm.mem_iff.mpr (mem_of_lookup h))

@[simp] theorem lenientStrings_texts (texts : List String) :
    lenientStrings (some (.arr (texts.map .str))) = texts := by
  simp [lenientStrings, Json.asArray, Json.asString, Function.comp_def]

end Go

import PrivacySuite.Data.Rose
import PrivacySuite.Go.Quantity
import PrivacySuite.Server.Request

/-!
# The normalised call tree

`normalizeCall` of `internal/nodeapproval/fingerprint.go`: a call tree as a node
reports it becomes a tree of frames with a fixed set of fields, each with the account
whose storage it runs in. An empty text is the storage of no account: the root has
no parent, and a failed creation may have no destination.
-/

namespace PrivacySuite.NodeApproval

open Codec Data Go Phase
open Server (isHexAddress)

/-- `map[string]any`. -/
abbrev Members := List (String × Json)

/-- `v[key]`; nil when there is no such member. -/
def member (v : Members) (key : String) : Json := (v.lookup key).getD .null

def str : Json → String
  | .str s => s
  | _ => ""

def field (v : Members) (key fallback : String) : String :=
  match member v key with
  | .str s => toLower s
  | _ => fallback

/-- `word`, of the text behind the prefix. -/
def wordOf (s : String) : Except String String :=
  if byteLen s > 64 then .error "oversize word"
  else if s.toList.all (fun c => (hexDigit c).isSome) then
    .ok ("0x" ++ (String.ofList (List.replicate (64 - byteLen s) '0') ++ toLower s))
  else .error "invalid word"

def word (v : Json) : Except String String := wordOf (trimPrefix (str v) "0x")

/-- `word(nil)`. -/
def zeroWordText : String := "0x" ++ String.ofList (List.replicate 64 '0')

/-- `(common.Address{}).Hex()`. -/
def zeroAddressText : String := "0x" ++ String.ofList (List.replicate 40 '0')

/-- A word is up to 64 digits, written out as the 32 bytes of the number they spell. -/
theorem wordOf_eq_ok {s text : String} :
    wordOf s = .ok text ↔ ∃ n, hexNat s.toList = some n ∧ s.toList.length ≤ 64 ∧
      text = "0x" ++ encodeHex (beBytes 32 n) := by
  have hwritten : ∀ n, hexNat s.toList = some n → s.toList.length ≤ 64 →
      "0x" ++ (String.ofList (List.replicate (64 - byteLen s) '0') ++ toLower s) =
        "0x" ++ encodeHex (beBytes 32 n) := by
    intro n hn hlen
    have hdigits := hexDigits_of_hexNat hn (64 - s.toList.length)
    rw [Nat.sub_add_cancel hlen] at hdigits
    rw [byteLen_of_digits (hexNat_all hn), encodeHex_beBytes, hdigits, String.ofList_append]
    unfold toLower
    rfl
  unfold wordOf
  split
  · rename_i hlong
    constructor
    · intro h
      cases h
    · rintro ⟨n, hn, hlen, -⟩
      rw [byteLen_of_digits (hexNat_all hn)] at hlong
      omega
  · rename_i hshort
    split
    · rename_i hall
      rw [List.all_eq_true] at hall
      obtain ⟨n, hn⟩ := hexNat_of_all hall
      rw [byteLen_of_digits hall, Nat.not_lt] at hshort
      rw [Except.ok.injEq, hwritten n hn hshort]
      constructor
      · rintro rfl
        exact ⟨n, hn, hshort, rfl⟩
      · rintro ⟨m, hm, -, rfl⟩
        rw [Option.some.inj (hn.symm.trans hm)]
    · rename_i hall
      constructor
      · intro h
        cases h
      · rintro ⟨n, hn, -, -⟩
        exact absurd (List.all_eq_true.mpr (hexNat_all hn)) hall

/-! ## Objects of a call tree -/

/-- A call as it is reported: the members of its object, and its `calls`. -/
abbrev CallObject := Rose Members

mutual

/-- `obj(v)`, with the objects of its `calls`. -/
def callObject : Json → CallObject
  | .obj entries => .node entries (callsOf entries)
  | .null => .node [] []
  | .bool _ => .node [] []
  | .num _ => .node [] []
  | .str _ => .node [] []
  | .arr _ => .node [] []

/-- `v["calls"].([]any)`. -/
def callsOf : List (String × Json) → List CallObject
  | [] => []
  | (key, v) :: rest => if key = "calls" then callItems v else callsOf rest

def callItems : Json → List CallObject
  | .arr items => callList items
  | .null => []
  | .bool _ => []
  | .num _ => []
  | .str _ => []
  | .obj _ => []

def callList : List Json → List CallObject
  | [] => []
  | v :: rest => callObject v :: callList rest

end

/-! ## Normalising -/

structure NormalFrame where
  type : String
  fromAddr : String
  toAddr : String
  storageAddress : String
  input : String
  output : String
  failed : Bool
  value : String
  logs : Json

structure CallTarget where
  type : String
  fromAddr : String
  toAddr : String

/-- What the recursion carries along. -/
structure Walk where
  count : Nat := 0
  targets : List CallTarget := []

def callTypes : List String :=
  ["CALL", "STATICCALL", "DELEGATECALL", "CALLCODE", "CREATE", "CREATE2", "SELFDESTRUCT"]

def isCreate (kind : String) : Bool := kind == "CREATE" || kind == "CREATE2"

def isDelegate (kind : String) : Bool := kind == "DELEGATECALL" || kind == "CALLCODE"

def hasError (v : Members) : Bool := !(member v "error").isNull

/-- The marker of a self-destruct to itself on an existing account: a no-op on the
parent. -/
def isNoopMarker (parent value : String) (v : Members) : Bool :=
  str (member v "type") == "SELFDESTRUCT" && field v "to" "" == "" &&
    field v "from" "" == zeroAddressText && value == zeroWordText && !hasError v && parent != ""

/-- `v["logs"]`, with an empty list for nil. -/
def logsOf (v : Members) : Json := if (member v "logs").isNull then .arr [] else member v "logs"

/-- The account whose storage a frame runs in. -/
def storageOf (kind parent fromAddr toAddr : String) : Except String String :=
  if isDelegate kind then if parent = "" then .error "root delegate" else .ok parent
  else if kind = "SELFDESTRUCT" then .ok fromAddr
  else .ok toAddr

def normalFrame (parent : String) (v : Members) (value fromAddr toAddr : String) :
    Except String NormalFrame := do
  onlyIf ((isHexAddress toAddr = false ∧
      ¬ (isCreate (str (member v "type")) = true ∧ hasError v = true ∧ toAddr = "")) ∨
      isHexAddress fromAddr = false) (.error "invalid call address")
  let storage ← storageOf (str (member v "type")) parent fromAddr toAddr
  return {
    type := str (member v "type")
    fromAddr := fromAddr
    toAddr := toAddr
    storageAddress := storage
    input := field v "input" "0x"
    output := field v "output" "0x"
    failed := hasError v
    value := value
    logs := logsOf v }

/-- The checks of one call below `parent`, without its `calls`. -/
def normalHead (parent : String) (v : Members) : Except String NormalFrame := do
  onlyIf (callTypes.contains (str (member v "type")) = false)
    (.error ("unsupported call \"" ++ str (member v "type") ++ "\""))
  let value ← word (member v "value")
  normalFrame parent v value
    (if isNoopMarker parent value v then parent else field v "from" "")
    (if isNoopMarker parent value v then parent else field v "to" "")

/-- `*count++` and the new entry of `trace.CallTargets`. -/
def Walk.visit (w : Walk) (frame : NormalFrame) : Walk where
  count := w.count + 1
  targets := w.targets ++ [⟨frame.type, frame.fromAddr, frame.toAddr⟩]

mutual

def normalizeCall (parent : String) : CallObject → Walk → Except String (Rose NormalFrame × Walk)
  | .node v calls, w => do
      onlyIf (w.count + 1 > 128) (.error "more than 128 calls")
      let frame ← normalHead parent v
      let (children, w) ← normalizeCalls frame.storageAddress calls (w.visit frame)
      return (.node frame children, w)

def normalizeCalls (parent : String) :
    List CallObject → Walk → Except String (List (Rose NormalFrame) × Walk)
  | [], w => .ok ([], w)
  | call :: rest, w => do
      let (child, w) ← normalizeCall parent call w
      let (children, w) ← normalizeCalls parent rest w
      return (child :: children, w)

end

/-! ## The walk in two steps -/

def Walk.put (frame : NormalFrame) (w : Walk) : Except String Walk := do
  onlyIf (w.count + 1 > 128) (.error "more than 128 calls")
  return w.visit frame

theorem put_eq_ok {frame : NormalFrame} {w w' : Walk} :
    Walk.put frame w = .ok w' ↔ w.count + 1 ≤ 128 ∧ w' = w.visit frame := by
  rw [Walk.put, onlyIf_error_bind_eq_ok, Phase.pure_eq_ok, Nat.not_lt, eq_comm]

theorem normalizeCall_builds :
    Rose.Builds NormalFrame.storageAddress normalHead Walk.put normalizeCall normalizeCalls where
  node := by
    intro parent v calls w u w'
    rw [normalizeCall]
    simp only [↓onlyIf_error_bind_eq_ok, Phase.bind_eq_ok, Phase.pure_eq_ok, Prod.exists,
      Prod.mk.injEq, put_eq_ok, Nat.not_lt]
    constructor
    · rintro ⟨hcount, frame, hframe, children, w₁, hchildren, rfl, rfl⟩
      exact ⟨frame, _, children, hframe, ⟨hcount, rfl⟩, hchildren, rfl⟩
    · rintro ⟨frame, w₁, children, hframe, ⟨hcount, rfl⟩, hchildren, rfl⟩
      exact ⟨hcount, frame, hframe, children, _, hchildren, rfl, rfl⟩
  nil := by
    intro parent w us w'
    rw [normalizeCalls, Except.ok.injEq, Prod.mk.injEq, eq_comm, eq_comm (a := w)]
  cons := by
    intro parent call rest w us w'
    rw [normalizeCalls]
    simp only [Phase.bind_eq_ok, Phase.pure_eq_ok, Prod.exists, Prod.mk.injEq,
      exists_eq_right_right, exists_and_left, eq_comm (a := us)]

theorem put_loop_iff {frames : List NormalFrame} {w w' : Walk} (hw : w.count ≤ 128) :
    Rose.Builds.loop Walk.put frames w = .ok w' ↔
      w.count + frames.length ≤ 128 ∧
        w' = ⟨w.count + frames.length,
          w.targets ++ frames.map fun f => ⟨f.type, f.fromAddr, f.toAddr⟩⟩ := by
  induction frames generalizing w with
  | nil =>
    rw [Rose.Builds.loop_nil]
    simp [hw]
  | cons frame frames ih =>
    have hcount : w.count + 1 + frames.length = w.count + (frame :: frames).length := by
      rw [List.length_cons]
      omega
    simp only [Rose.Builds.loop_cons, put_eq_ok, and_assoc, exists_and_left, exists_eq_left]
    by_cases hroom : w.count + 1 ≤ 128
    · rw [ih (w := w.visit frame) hroom, and_iff_right hroom]
      simp only [Walk.visit, hcount, List.map_cons, List.append_assoc, List.singleton_append]
    · refine iff_of_false (fun h => hroom h.1) fun h => ?_
      rw [← hcount] at h
      omega

/-- Normalising a tree is relabelling it, with room for 128 frames. -/
theorem normalizeCall_eq_ok {v : CallObject} {n : Rose NormalFrame} {w : Walk} :
    normalizeCall "" v {} = .ok (n, w) ↔
      Rose.annotateM NormalFrame.storageAddress normalHead "" v = .ok n ∧ n.size ≤ 128 ∧
        w = ⟨n.size, n.labels.map fun f => ⟨f.type, f.fromAddr, f.toAddr⟩⟩ := by
  rw [normalizeCall_builds.ok_iff, put_loop_iff (Nat.zero_le _), n.length_labels]
  simp only [List.nil_append, Nat.zero_add]

end PrivacySuite.NodeApproval

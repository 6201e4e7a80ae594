import Custody.Proofs.Request.Funds
import Mathlib.Algebra.Order.BigOperators.Group.List

/-! # Whether the estimated size suffices

An estimate counts 75 bytes for an input, of which an unsigned one takes 41, and 32 bytes for an
output, which some standard outputs exceed. What the inputs and the spare output leave makes up for
the larger outputs, the payload's opcodes and the longer counts, up to a point that depends on the
shapes of the outputs alone.
-/

namespace Custody

theorem Error.concernsRequest_of_concernsItems {failure : Error}
    (concerns : failure.concernsItems = true) : failure.concernsRequest = true := by
  cases failure with
  | invalidInput | invalidScript | invalidSequence | mixedInputAddress | invalidAddress => rfl
  | _ => cases concerns

section Outputs

/-- The bytes of an output whose script is of a template. -/
def Script.Template.outputSize : Script.Template → Nat
  | .witnessPubkeyHash => 31
  | .scriptHash => 32
  | .pubkeyHash => 34
  | .witnessScriptHash => 43
  | .taproot => 43

theorem Script.Template.outputSize_le (template : Script.Template) : template.outputSize ≤ 43 := by
  cases template <;> decide

/-- An output takes 8 bytes for its value and one for the length of its script. -/
private theorem Script.Template.Instance.outputSize_eq {template : Script.Template}
    {script : Script} (shape : template.Instance script) :
    template.outputSize = 9 + script.length := by
  cases shape with
  | pubkeyHash size | scriptHash size =>
    simp only [payToPubkeyHash, payToScriptHash, List.length_append, size]
    rfl
  | witnessPubkeyHash size | witnessScriptHash size | taproot size =>
    rw [length_payToWitness, size]
    rfl

theorem TxOut.length_encode_of_template? {output : TxOut} {template : Script.Template}
    (shape : output.script.template? = some template) :
    output.encode.length = template.outputSize := by
  have known := (Script.template?_eq_some_iff.mp shape).outputSize_eq
  have most := template.outputSize_le
  have counted : CompactSize.size output.script.length = 1 := if_pos (by omega)
  rw [length_encode, known, counted]

/-- Outputs of known templates have the sizes of those. -/
theorem TxOut.map_length_encode {outputs : List TxOut} {templates : List Script.Template}
    (shapes : outputs.map (·.script.template?) = templates.map some) :
    outputs.map (·.encode.length) = templates.map Script.Template.outputSize := by
  induction outputs generalizing templates with
  | nil =>
    obtain rfl := List.map_eq_nil_iff.mp shapes.symm
    rfl
  | cons output outputs ih =>
    cases templates with
    | nil => cases shapes
    | cons template templates =>
      rw [List.map_cons, List.map_cons, List.cons.injEq] at shapes
      rw [List.map_cons, List.map_cons, length_encode_of_template? shapes.1, ih shapes.2]

/-- What outputs of some templates take beyond 32 bytes each, which may be less than nothing. -/
def Script.Template.surplus (templates : List Script.Template) : Int :=
  (templates.map fun template => (template.outputSize : Int) - 32).sum

theorem Script.Template.surplus_eq (templates : List Script.Template) :
    surplus templates = (templates.map outputSize).sum - 32 * templates.length := by
  unfold surplus
  induction templates with
  | nil => rfl
  | cons template templates ih =>
    simp only [List.map_cons, List.sum_cons, List.length_cons, ih]
    omega

end Outputs

namespace Request

open Assembly CompactSize

variable {request : Request} {clock : UInt64} {failure : Error}

section Length

/-- The bytes that a payload takes beyond its own: those of an output and of two opcodes. -/
private theorem sum_payloadOutputs {payload : Bytes} (small : payload.length ≤ 64) :
    ((payloadOutputs payload).map (·.encode.length)).sum =
      payload.length + if payload.isEmpty then 0 else 11 := by
  unfold payloadOutputs
  cases none : payload.isEmpty with
  | true =>
    rw [List.isEmpty_iff.mp none]
    rfl
  | false =>
    have short : payload.length + 1 + 1 < 0xFD := by omega
    simp only [Bool.false_eq_true, ↓reduceIte, List.map_cons, List.map_nil, List.sum_cons,
      List.sum_nil, TxOut.length_encode, Script.nullData, Script.pushBytes, List.length_cons,
      size, short]
    omega

/-- An unsigned transaction takes 10 bytes, 41 for each input, its outputs, and what longer counts
and the form without inputs take. -/
theorem length_encode_transaction (request : Request) :
    request.transaction.encode.length =
      10 + 41 * request.coins.length + (request.paidOutputs.map (·.encode.length)).sum
        + ((payloadOutputs request.payload).map (·.encode.length)).sum
        + extra request.coins.length + extra request.transaction.outputs.length
        + if request.coins.isEmpty then 2 else 0 := by
  have spent : (request.transaction.inputs.map (·.encode.length)).sum =
      41 * request.coins.length := by
    have each : request.transaction.inputs.map (·.encode.length) =
        List.replicate request.coins.length 41 := by
      rw [transaction, List.map_map, List.eq_replicate_iff, List.length_map]
      refine ⟨rfl, fun bytes member => ?_⟩
      obtain ⟨coin, _, rfl⟩ := List.mem_map.mp member
      exact TxIn.length_encode coin.input
    rw [each, List.sum_replicate_nat, Nat.mul_comm]
  have counted : request.transaction.inputs.length = request.coins.length := List.length_map ..
  have spends : request.transaction.inputs.isEmpty = request.coins.isEmpty := List.isEmpty_map ..
  have paid : (request.transaction.outputs.map (·.encode.length)).sum =
      (request.paidOutputs.map (·.encode.length)).sum
        + ((payloadOutputs request.payload).map (·.encode.length)).sum := by
    rw [transaction, List.map_append, List.sum_append]
  rw [request.transaction_unsigned.length_encode, Transaction.baseSize_eq, spent, counted, spends,
    paid, size_eq_extra_add_one, size_eq_extra_add_one]
  omega

/-- The estimate is exceeded if what the outputs and the longer counts take beyond it is more than
what is left over from the inputs and the spare output. -/
theorem estimate_lt_iff (small : request.payload.length ≤ 64) :
    request.estimate < request.transaction.encode.length ↔
      34 * request.coins.length + 32 + 32 * request.paidOutputs.length <
        extra request.coins.length + extra request.transaction.outputs.length
          + (request.paidOutputs.map (·.encode.length)).sum
          + (if request.payload.isEmpty then 0 else 11) + if request.coins.isEmpty then 2 else 0 := by
  rw [estimate, virtualSize_eq small, length_encode_transaction, sum_payloadOutputs small]
  omega

theorem estimate_lt_iff_of_coins (small : request.payload.length ≤ 64)
    (spends : request.coins ≠ []) :
    request.estimate < request.transaction.encode.length ↔
      34 * request.coins.length + 32 + 32 * request.paidOutputs.length <
        extra request.coins.length + extra request.transaction.outputs.length
          + (request.paidOutputs.map (·.encode.length)).sum
          + if request.payload.isEmpty then 0 else 11 := by
  have held : request.coins.isEmpty = false := List.isEmpty_eq_false_iff.mpr spends
  rw [estimate_lt_iff small, held]
  exact Iff.rfl

end Length

section Refused

/-- A request that does not settle is refused for what it spends and pays. -/
theorem concernsRequest_of_settle (failed : request.settle = .error failure) :
    failure.concernsRequest = true := by
  rcases Except.bind_eq_error_iff.mp failed with large | ⟨_, _, failed⟩
  · unfold checkPayload at large
    split at large
    · cases large
      rfl
    · cases large
  rcases Except.bind_eq_error_iff.mp failed with coins | ⟨main, _, failed⟩
  · exact Error.concernsRequest_of_concernsItems ((failsOnly_addInputs _ _).outcome coins)
  rcases Except.bind_eq_error_iff.mp failed with payments | ⟨outputs, _, failed⟩
  · exact Error.concernsRequest_of_concernsItems ((failsOnly_addOutputs _ _).outcome payments)
  rcases Except.bind_eq_error_iff.mp failed with short | ⟨_, _, settled⟩
  · unfold change at short
    split at short
    · cases short
      rfl
    · cases short
  · cases settled

/-- A request that can be assembled, and no other, is refused for its size, with both sizes. -/
theorem build_eq_estimationExceeded_iff {actual estimate : Nat} :
    request.build clock = .error (.estimationExceeded actual estimate) ↔
      request.Assembles ∧ request.estimate < request.transaction.encode.length ∧
        actual = request.transaction.encode.length ∧ estimate = request.estimate := by
  constructor
  · intro failed
    rcases build_eq_error failed with stopped | ⟨assembles, size | other⟩
    · cases concernsRequest_of_settle stopped
    · rcases checkSize_eq_error_iff.mp size with ⟨exceeds, same⟩ | ⟨_, _, heavy⟩
      · cases same
        exact ⟨assembles, exceeds, rfl, rfl⟩
      · cases heavy
    · cases other
  · rintro ⟨assembles, exceeds, rfl, rfl⟩
    rw [build_of_assembles assembles, checkSize_eq_error_iff.mpr (.inl ⟨exceeds, rfl⟩)]
    rfl

end Refused

section Shapes

/-- Payments and change are of standard templates. -/
theorem isSome_template?_of_mem_paidOutputs (assembles : request.Assembles) {output : TxOut}
    (member : output ∈ request.paidOutputs) : output.script.template?.isSome = true := by
  rcases List.mem_append.mp member with paid | change
  · obtain ⟨payment, requested, rfl⟩ := List.mem_map.mp paid
    exact (Address.template?_of_toScript (assembles.payable payment requested).toScript).1
  · obtain ⟨_, coin, _, rfl⟩ := mem_changeOutputs change
    exact coin.isSome_template?_lock

theorem exists_templates (assembles : request.Assembles) :
    ∃ templates : List Script.Template,
      request.paidOutputs.map (·.script.template?) = templates.map some := by
  refine ⟨request.paidOutputs.filterMap (·.script.template?), ?_⟩
  rw [List.map_filterMap_some_eq_filter_map_isSome, eq_comm, List.filter_eq_self]
  intro template member
  obtain ⟨output, paid, rfl⟩ := List.mem_map.mp member
  exact isSome_template?_of_mem_paidOutputs assembles paid

/-- Change takes at most 11 bytes more than the 32 that are counted for it. -/
private theorem sum_changeOutputs_le (request : Request) :
    (request.changeOutputs.map (·.encode.length)).sum ≤ 32 * request.changeOutputs.length + 11 := by
  cases coins : request.coins with
  | nil =>
    rw [changeOutputs_of_not_pos fun paid => coins_of_paidChange_pos paid coins]
    exact Nat.zero_le _
  | cons coin rest =>
    rw [changeOutputs_of_coins coins]
    split
    · obtain ⟨template, shape⟩ := Option.isSome_iff_exists.mp coin.isSome_template?_lock
      have most := template.outputSize_le
      rw [List.map_singleton, List.sum_singleton, List.length_singleton,
        TxOut.length_encode_of_template? shape]
      omega
    · exact Nat.zero_le _

/-- Payments of at most 32 bytes leave the estimate room for change. -/
private theorem sum_paidOutputs_le
    (small : ∀ payment ∈ request.payments, (payment.output request.network).encode.length ≤ 32) :
    (request.paidOutputs.map (·.encode.length)).sum ≤ 32 * request.paidOutputs.length + 11 := by
  have payments :
      (request.payments.map fun payment => (payment.output request.network).encode.length).sum ≤
        (request.payments.map fun _ => 32).sum := List.sum_le_sum small
  rw [List.map_const', List.sum_replicate_nat] at payments
  have change := request.sum_changeOutputs_le
  rw [paidOutputs, List.map_append, List.sum_append, List.length_append, List.length_map,
    List.map_map, Nat.mul_add, Nat.mul_comm 32, Nat.add_assoc]
  exact Nat.add_le_add payments change

end Shapes

section Exact

/-- Payments of at most 32 bytes never exceed the estimate. -/
private theorem length_encode_le_estimate (assembles : request.Assembles)
    (small : ∀ payment ∈ request.payments, (payment.output request.network).encode.length ≤ 32) :
    request.transaction.encode.length ≤ request.estimate := by
  have paid := sum_paidOutputs_le small
  have outputs := extra_le request.transaction.outputs.length
  have payload : (if request.payload.isEmpty then 0 else 11) ≤ 11 := by split <;> decide
  by_contra above
  have exceeds := Nat.not_le.mp above
  by_cases spends : request.coins = []
  · have none : extra request.coins.length = 0 := by rw [spends]; rfl
    rw [estimate_lt_iff assembles.payload, none, spends, List.isEmpty_nil, if_pos rfl] at exceeds
    omega
  · have some := List.length_pos_iff.mpr spends
    have inputs := extra_le request.coins.length
    rw [estimate_lt_iff_of_coins assembles.payload spends] at exceeds
    omega

/-- A request that spends coins and comes to the check of its size is refused there exactly if its
outputs take more beyond 32 bytes each than its coins leave over, counting the payload's opcodes and
the longer counts. It never is if all its payments are to witness key hashes or script hashes. -/
theorem estimationExceeded_exact (request : Request) (clock : UInt64) :
    (∀ main tx, request.coins ≠ [] →
      request.assemble.runFrom Transaction.blank = (.ok main, tx) →
      ∃ templates : List Script.Template,
        tx.outputs.map (·.script.template?) = templates.map some ∧
        ((∃ actual estimate, request.build clock = .error (.estimationExceeded actual estimate)) ↔
          34 * (request.coins.length : Int) + 32 <
            extra request.coins.length
              + extra (tx.outputs ++ payloadOutputs request.payload).length
              + Script.Template.surplus templates + if request.payload.isEmpty then 0 else 11)) ∧
    ((∀ payment ∈ request.payments, ∀ script,
        Address.toScript payment.address request.network = .ok script →
          script.template? = some .witnessPubkeyHash ∨ script.template? = some .scriptHash) →
      ∀ actual estimate, request.build clock ≠ .error (.estimationExceeded actual estimate)) := by
  constructor
  · intro main tx spends run
    obtain ⟨assembles, rfl, rfl⟩ := assemble_eq_ok_iff.mp run
    obtain ⟨templates, shapes⟩ := exists_templates assembles
    refine ⟨templates, shapes, ?_⟩
    have refused : (∃ actual estimate,
        request.build clock = .error (.estimationExceeded actual estimate)) ↔
        request.estimate < request.transaction.encode.length := by
      simp only [build_eq_estimationExceeded_iff]
      constructor
      · rintro ⟨_, _, _, exceeds, _⟩
        exact exceeds
      · intro exceeds
        exact ⟨_, _, assembles, exceeds, rfl, rfl⟩
    have sizes := TxOut.map_length_encode shapes
    have counted : request.paidOutputs.length = templates.length := by
      simpa only [List.length_map] using congrArg List.length shapes
    have outputs : request.transaction.outputs =
        request.paidOutputs ++ payloadOutputs request.payload := rfl
    rw [refused, estimate_lt_iff_of_coins assembles.payload spends, sizes, counted, outputs,
      Script.Template.surplus_eq]
    dsimp only
    split <;> omega
  · intro small actual estimate failed
    obtain ⟨assembles, exceeds, _⟩ := build_eq_estimationExceeded_iff.mp failed
    refine absurd exceeds (Nat.not_lt.mpr (length_encode_le_estimate assembles ?_))
    intro payment requested
    have paid := (assembles.payable payment requested).toScript
    rcases small payment requested _ paid with shape | shape
    · rw [TxOut.length_encode_of_template? shape]
      decide
    · rw [TxOut.length_encode_of_template? shape]
      decide

/-- A coin of a multisig account. -/
def vaultCoin : Coin :=
  { generatorCoin with satoshi := 1000000, script := List.replicate 101 0 }

/-- A request that pays a multisig account some times over, and change. -/
def crowd (count : Nat) : Request where
  coins := [vaultCoin]
  payments := List.replicate count ⟨vaultCoin.address .bitcoin, 10000⟩
  payload := []
  network := .bitcoin

/-- The sweep with a payment to its own coin and the largest payload. -/
def announced : Request :=
  { sweep with
    payments := [⟨generatorCoin.address .bitcoin, 1000⟩], payload := List.replicate 64 0 }

private theorem assembles_crowd {count : Nat} (few : count ≤ 100) : (crowd count).Assembles := by
  have total : (crowd count).outputTotal = 10000 * count := by
    rw [outputTotal, crowd, Payment.total, List.map_replicate, List.sum_replicate_nat, Nat.mul_comm]
    rfl
  have held : (crowd count).inputTotal = 1000000 := rfl
  exact {
    payload := Nat.zero_le _
    coins := List.forall_mem_singleton.mpr
      { spendable_generatorCoin with valued := by decide, shaped := .inr (by decide) }
    oneAddress := by simp [crowd]
    inputTotal := by omega
    payable := fun payment member =>
      List.eq_of_mem_replicate member ▸ ⟨_, vaultCoin.toScript_address .bitcoin⟩
    outputTotal := by omega
    covered := by omega }

private theorem template?_lock_vaultCoin :
    vaultCoin.lock.template? = some .witnessScriptHash := by
  rw [vaultCoin.lock_eq, Script.template?_eq_some_iff]
  exact .witnessScriptHash (Sha256.length_hash _)

/-- The payments and the change of a crowd are all to the one account. -/
private theorem templates_crowd {count : Nat} {templates : List Script.Template}
    (shapes : (crowd count).paidOutputs.map (·.script.template?) = templates.map some) :
    templates = List.replicate (crowd count).paidOutputs.length .witnessScriptHash := by
  have each : (crowd count).paidOutputs.map (·.script.template?) =
      (List.replicate (crowd count).paidOutputs.length
        Script.Template.witnessScriptHash).map some := by
    rw [List.map_replicate, List.eq_replicate_iff]
    refine ⟨List.length_map .., List.forall_mem_map.mpr fun output member => ?_⟩
    rw [← template?_lock_vaultCoin]
    rcases List.mem_append.mp member with paid | change
    · obtain ⟨payment, requested, rfl⟩ := List.mem_map.mp paid
      obtain rfl := List.eq_of_mem_replicate requested
      have paid : (Payment.mk (vaultCoin.address .bitcoin) 10000).Payable .bitcoin :=
        ⟨_, vaultCoin.toScript_address .bitcoin⟩
      have script := paid.toScript.symm.trans (vaultCoin.toScript_address .bitcoin)
      exact congrArg Script.template? (Except.ok.inj script)
    · obtain ⟨_, coin, spent, rfl⟩ := mem_changeOutputs change
      rw [List.mem_singleton.mp spent]
  exact List.map_injective_iff.mpr (Option.some_injective _) (shapes.symm.trans each)

/-- Six payments and change to a multisig account exceed the estimate by 11 bytes, five and change
do not. -/
theorem estimationExceeded_exact_crowd :
    (∃ actual estimate, (crowd 6).build = .error (.estimationExceeded actual estimate)) ∧
      (¬ ∃ actual estimate, (crowd 5).build = .error (.estimationExceeded actual estimate)) ∧
      ∀ actual estimate, announced.build ≠ .error (.estimationExceeded actual estimate) := by
  refine ⟨?_, ?_, (estimationExceeded_exact announced 0).2 ?_⟩
  · have run := assemble_eq_ok_iff.mpr ⟨assembles_crowd (by decide : 6 ≤ 100), rfl, rfl⟩
    obtain ⟨templates, shapes, refused⟩ :=
      (estimationExceeded_exact (crowd 6) 0).1 _ _ (List.cons_ne_nil _ _) run
    obtain rfl := templates_crowd shapes
    exact refused.mpr (by decide)
  · have run := assemble_eq_ok_iff.mpr ⟨assembles_crowd (by decide : 5 ≤ 100), rfl, rfl⟩
    obtain ⟨templates, shapes, refused⟩ :=
      (estimationExceeded_exact (crowd 5) 0).1 _ _ (List.cons_ne_nil _ _) run
    obtain rfl := templates_crowd shapes
    exact mt refused.mp (by decide)
  · intro payment requested script paid
    rw [List.mem_singleton.mp requested] at paid
    have same := (generatorCoin.toScript_address .bitcoin).symm.trans paid
    rw [← Except.ok.inj same, generatorCoin.lock_eq]
    exact .inl (Script.template?_eq_some_iff.mpr (.witnessPubkeyHash (Ripemd160.length_hash160 _)))

end Exact

end Request

end Custody

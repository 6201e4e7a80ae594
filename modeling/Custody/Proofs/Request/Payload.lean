import Custody.Proofs.Request
import Custody.Proofs.Script.Refusals

/-! # Payloads are null data

The output that publishes the payload of a request is null data, and no other output of a built
packet is. What counts as null data is known from the grammar of the instructions that push.
-/

namespace Custody.Request

open Script

variable {request : Request} {packet : Packet}

/-- Of the outputs of a request, that of the payload carries data, and no other does. -/
theorem isNullData_iff_of_mem_outputs (assembles : request.Assembles) {output : TxOut}
    (member : output ∈ request.transaction.outputs) :
    output.script.isNullData = true ↔
      request.payload ≠ [] ∧ output = ⟨0, nullData request.payload⟩ := by
  have short := assembles.payload
  constructor
  · intro carries
    rcases mem_outputs_iff.mp member with ⟨payment, requested, rfl⟩ | change | payload
    · rw [isNullData_payment assembles requested] at carries
      cases carries
    · rw [isNullData_change change] at carries
      cases carries
    · exact mem_payloadOutputs payload
  · rintro ⟨_, rfl⟩
    exact isNullData_nullData (by omega)

/-- A script is taken for one that only pushes exactly when it is a sequence of complete
instructions, and refused exactly when it breaks off behind some of them; what the data of an
instruction is does not matter. Null data is the opcode `6a` in front of such a sequence, in at most
83 bytes. The output of every payload of up to 64 bytes is null data, and in a built packet nothing
else is. -/
theorem isPushOnly_exact (script : Script) :
    (script.isPushOnly = true ↔
      ∃ pushes : List Script, (∀ push ∈ pushes, IsPush push) ∧ pushes.flatten = script) ∧
    (script.isPushOnly = false ↔ ∃ (pushes : List Script) (tail : Script),
      (∀ push ∈ pushes, IsPush push) ∧ Breaks tail ∧ pushes.flatten ++ tail = script) ∧
    (∀ (pushes : List Script) (header data data' rest : Bytes), (∀ push ∈ pushes, IsPush push) →
      Announces data.length header → data'.length = data.length →
        isPushOnly (pushes.flatten ++ (header ++ (data' ++ rest))) =
          isPushOnly (pushes.flatten ++ (header ++ (data ++ rest)))) ∧
    (script.isNullData = true ↔
      script.length ≤ 83 ∧ ∃ pushes, Pushes pushes ∧ 0x6a :: pushes = script) ∧
    (∀ payload : Bytes, payload ≠ [] → payload.length ≤ 64 →
      payloadOutputs payload = [⟨0, 0x6a :: UInt8.ofNat payload.length :: payload⟩] ∧
        isNullData (0x6a :: UInt8.ofNat payload.length :: payload) = true) ∧
    ∀ (request : Request) (clock : UInt64) (packet : Packet), request.build clock = .ok packet →
      request.payload ≠ [] →
      request.payload.length ≤ 64 ∧
      ⟨0, 0x6a :: UInt8.ofNat request.payload.length :: request.payload⟩ ∈
        packet.unsignedTx.outputs ∧
      ∀ output ∈ packet.unsignedTx.outputs, output.script.isNullData = true ↔
        output = ⟨0, 0x6a :: UInt8.ofNat request.payload.length :: request.payload⟩ := by
  have published {payload : Bytes} (carries : payload ≠ []) :
      payloadOutputs payload = [⟨0, nullData payload⟩] := by
    rw [payloadOutputs, if_neg (by simpa using carries)]
  refine ⟨isPushOnly_eq_true_iff, isPushOnly_eq_false_iff, ?_, isNullData_eq_true_iff, ?_, ?_⟩
  · intro pushes header data data' rest all announces same
    rw [isPushOnly_append all, isPushOnly_append all, isPushOnly_of_announces announces,
      isPushOnly_of_announces (same.symm ▸ announces)]
  · intro payload carries short
    exact ⟨published carries, isNullData_nullData (by omega)⟩
  · intro request clock packet built carries
    obtain ⟨admissible, rfl⟩ := build_eq_ok_iff.mp built
    refine ⟨admissible.payload, ?_, fun output member => ?_⟩
    · refine mem_outputs_iff.mpr (.inr (.inr ?_))
      rw [published carries]
      exact List.mem_singleton_self _
    · rw [isNullData_iff_of_mem_outputs admissible.assembles member]
      exact and_iff_right carries

/-- Neither byte of the payload of `settlement` is an opcode that pushes, and its output is null data
all the same. -/
theorem isPushOnly_exact_settlement :
    isPushOnly [0x02, 0x50, 0xff] = true ∧ isPushOnly [0x01, 0x50, 0xff] = false ∧
      settlement.build 1700000000 = .ok settlement.packet ∧ settlement.payload ≠ [] ∧
      ⟨0, [0x6a, 0x02, 0x50, 0xff]⟩ ∈ settlement.packet.unsignedTx.outputs := by
  have packed := build_settlement 1700000000
  have carries : settlement.payload ≠ [] := List.cons_ne_nil _ _
  have two : ([0x50, 0xff] : Bytes).length ≤ 0x4b := by decide
  have one : ([0x50] : Bytes).length ≤ 0x4b := by decide
  obtain ⟨accepted, _, _, _, _, built⟩ := isPushOnly_exact [0x02, 0x50, 0xff]
  obtain ⟨_, refused, _⟩ := isPushOnly_exact [0x01, 0x50, 0xff]
  refine ⟨accepted.mpr ⟨[[0x02, 0x50, 0xff]], ?_, rfl⟩, refused.mpr ⟨[[0x01, 0x50]], [0xff], ?_⟩,
    packed, carries, (built settlement 1700000000 settlement.packet packed carries).2.1⟩
  · exact List.forall_mem_singleton.mpr (.direct two)
  · exact ⟨List.forall_mem_singleton.mpr (.direct one), .opcode (.inr (by decide)), rfl⟩

end Custody.Request

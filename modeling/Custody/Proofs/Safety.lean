import Custody.Proofs.Checked.Deposit
import Custody.Proofs.Checked.Operation
import Custody.Proofs.Checked.Packet
import Custody.Proofs.Checked.Request

/-! # No access is out of range

What an outsider chooses reaches the program as bytes of packets and operations, as transactions, as
replies of a node and as requests to pay. With every index, slice, copy, difference and pass over
lists side by side taken as an access that may be out of range, none of them ever is.
-/

namespace Custody

/-- Whatever is given to the program, its checked form has the outcome of the program itself: no
access on the way was out of range. -/
theorem accesses_in_range :
    (∀ bytes, (Packet.parseChecked bytes).outcome? = some (Packet.parse bytes)) ∧
    (∀ data, (Packet.decodeChecked data).outcome? = some (Packet.decode data)) ∧
    (∀ bytes, (Operation.decodeChecked bytes).outcome? = some (Operation.decode bytes)) ∧
    (∀ tx, (Sanity.checkChecked tx).outcome? = some (Sanity.check tx)) ∧
    (∀ tx height medianTime, (Relay.checkChecked tx height medianTime).outcome? =
      some (Relay.check tx height medianTime)) ∧
    (∀ session hash index, Checked.outcomeOn? (Node.getDepositChecked hash index) session =
      some ((Node.getDeposit hash index).runOn session)) ∧
    (∀ request clock, (Request.buildChecked request clock).outcome? =
      some (request.build clock)) ∧
    ∀ request feeCoins rate, (Request.estimateFeeChecked request feeCoins rate).outcome? =
      some (request.estimateFee feeCoins rate) := by
  refine ⟨fun bytes => ?_, fun data => ?_, fun bytes => ?_, fun tx => ?_, fun tx height time => ?_,
    fun session hash index => ?_, fun request clock => ?_, fun request feeCoins rate => ?_⟩
  · rw [Packet.parseChecked_eq, Checked.outcome?_total]
  · rw [Packet.decodeChecked_eq, Checked.outcome?_total]
  · rw [Operation.decodeChecked_eq, Checked.outcome?_total]
  · rw [Sanity.checkChecked_eq, Checked.outcome?_total]
  · rw [Relay.checkChecked_eq, Checked.outcome?_total]
  · rw [Node.getDepositChecked_eq, Checked.outcomeOn?_totalOn]
    rfl
  · rw [Request.buildChecked_eq, Checked.outcome?_total]
  · rw [Request.estimateFeeChecked_eq, Checked.outcome?_total]

end Custody

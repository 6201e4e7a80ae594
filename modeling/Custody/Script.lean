import Custody.Hash.Ripemd160

/-! # Scripts

The locking scripts that pay to a hash, and scripts that only push data. A script is a byte string;
a `Template` is one of the five shapes of locking script that relays take for standard.
-/

namespace Custody

/-- A program in the stack language of transactions. -/
abbrev Script := Bytes

namespace Script

/-- A standard locking script, by what it pays to. -/
inductive Template where
  | pubkeyHash
  | scriptHash
  | witnessPubkeyHash
  | witnessScriptHash
  | taproot
deriving DecidableEq, Repr

def payToPubkeyHash (hash : Bytes) : Script :=
  [0x76, 0xa9, 0x14] ++ hash ++ [0x88, 0xac]

def payToScriptHash (hash : Bytes) : Script :=
  [0xa9, 0x14] ++ hash ++ [0x87]

def versionOpcode (version : Nat) : UInt8 :=
  if version = 0 then 0 else UInt8.ofNat (0x50 + version)

def payToWitness (version : Nat) (program : Bytes) : Script :=
  versionOpcode version :: UInt8.ofNat program.length :: program

/-- Whether a script is an opcode, the push of `size` bytes and those bytes. -/
def isProgram (opcode : UInt8) (size : Nat) : Script → Bool
  | a :: b :: program => a = opcode && b = UInt8.ofNat size && program.length = size
  | _ => false

def isWitnessPubkeyHash (script : Script) : Bool :=
  isProgram 0x00 20 script

def isWitnessScriptHash (script : Script) : Bool :=
  isProgram 0x00 32 script

def isTaproot (script : Script) : Bool :=
  isProgram 0x51 32 script

def isPubkeyHash (script : Script) : Bool :=
  script.length = 25 && script.take 3 = [0x76, 0xa9, 0x14] && script.drop 23 = [0x88, 0xac]

def isScriptHash (script : Script) : Bool :=
  script.length = 23 && script.take 2 = [0xa9, 0x14] && script.drop 22 = [0x87]

def template? (script : Script) : Option Template :=
  if script.isPubkeyHash then some .pubkeyHash
  else if script.isScriptHash then some .scriptHash
  else if script.isWitnessPubkeyHash then some .witnessPubkeyHash
  else if script.isWitnessScriptHash then some .witnessScriptHash
  else if script.isTaproot then some .taproot
  else none

/-- Whether a script is a version opcode and the push of the remaining 2 to 40 bytes. -/
def isWitnessProgram : Script → Bool
  | version :: size :: program =>
    (version = 0 || (0x51 ≤ version && version ≤ 0x60)) && program.length = size.toNat
      && 2 ≤ program.length && program.length ≤ 40
  | _ => false

/-- Drops a push of as many bytes as a number of `width` bytes says. -/
def dropSized? (width : Nat) (script : Script) : Option Script :=
  match Bytes.split? width script with
  | none => none
  | some (digits, rest) => (Bytes.split? (Bytes.toNatLE digits) rest).map (·.2)

/-- Drops one instruction that pushes: an opcode below `4c` and that many bytes; `4c`, `4d` or `4e`,
a length of one, two or four bytes and that many bytes; `4f`; or one of `51` to `60`. -/
def dropPush? : Script → Option Script
  | [] => none
  | op :: rest =>
    if op < 0x4c then (Bytes.split? op.toNat rest).map (·.2)
    else if op = 0x4c then dropSized? 1 rest
    else if op = 0x4d then dropSized? 2 rest
    else if op = 0x4e then dropSized? 4 rest
    else if op = 0x4f || (0x51 ≤ op && op ≤ 0x60) then some rest
    else none

theorem length_of_split? {n : Nat} {bytes taken rest : Bytes}
    (split : Bytes.split? n bytes = some (taken, rest)) : rest.length ≤ bytes.length := by
  obtain ⟨_, rfl⟩ := Bytes.split?_eq_some_iff.mp split
  simp

theorem length_of_dropSized? {width : Nat} {script rest : Script}
    (dropped : dropSized? width script = some rest) : rest.length ≤ script.length := by
  unfold dropSized? at dropped
  split at dropped
  · simp at dropped
  · rename_i outer
    obtain ⟨⟨_, _⟩, inner, rfl⟩ := Option.map_eq_some_iff.mp dropped
    exact Nat.le_trans (length_of_split? inner) (length_of_split? outer)

/-- An instruction is never empty. -/
theorem length_of_dropPush? {script rest : Script} (dropped : dropPush? script = some rest) :
    rest.length < script.length := by
  cases script with
  | nil => simp [dropPush?] at dropped
  | cons op tail =>
    simp only [dropPush?] at dropped
    rw [List.length_cons, Nat.lt_succ_iff]
    split at dropped
    · obtain ⟨⟨_, _⟩, split, rfl⟩ := Option.map_eq_some_iff.mp dropped
      exact length_of_split? split
    · repeat' split at dropped
      all_goals first
        | exact length_of_dropSized? dropped
        | simp only [Option.some.injEq] at dropped; exact Nat.le_of_eq (congrArg _ dropped.symm)
        | simp at dropped

/-- Whether a script is a sequence of instructions that push. -/
def isPushOnly (script : Script) : Bool :=
  if script.isEmpty then true
  else
    match _dropped : dropPush? script with
    | some rest => isPushOnly rest
    | none => false
termination_by script.length
decreasing_by exact length_of_dropPush? (by assumption)

/-- The instruction that pushes a byte string of less than 76 bytes. -/
def pushBytes (data : Bytes) : Script :=
  UInt8.ofNat data.length :: data

/-- A script that cannot be spent and carries a byte string of less than 76 bytes. -/
def nullData (data : Bytes) : Script :=
  0x6a :: pushBytes data

/-- The largest script that relays take for null data. -/
def maxNullData : Nat := 83

/-- Whether a script is null data: the opcode `6a` and instructions that push. -/
def isNullData (script : Script) : Bool :=
  match script with
  | 0x6a :: rest => script.length ≤ maxNullData && isPushOnly rest
  | _ => false

end Script

end Custody

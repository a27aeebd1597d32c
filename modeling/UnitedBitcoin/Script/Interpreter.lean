import Mathlib
import UnitedBitcoin.Primitives.Serialize

/-!
# The loop of `EvalScript`

`EvalScript` (`script/interpreter.cpp`) reads the script one instruction at a time with
`CScript::GetOp`, counts opcodes, refuses disabled ones, pushes data in executed branches, keeps
the stack of conditional flags `vfExec` for `OP_IF`, `OP_NOTIF`, `OP_ELSE` and `OP_ENDIF`, checks
the size of the two stacks after every instruction, and at the end refuses an open conditional.
UnitedBitcoin adds the contract opcodes `OP_CREATE_NATIVE` ... `OP_DEPOSIT_TO_CONTRACT`, which
push the rest of the script and `return true` on the spot.

The model keeps all of that, byte by byte. The other cases of the `switch` (stack
manipulation, arithmetic, hashing, signature checks, and its `default`) touch neither `vfExec`
nor the position; they are a parameter, `DataOp`, and every result here holds for every choice
of it. `evalLoop_ok_cases` says how a run can succeed: with no open conditional, or at an
executed contract opcode. The second way leaves conditionals open and skips the size check:
`evalScript_contract_return`.
-/

namespace UnitedBitcoin.Script

/-- `valtype`. -/
abbrev ValType := List UInt8

/-- `ScriptError`. -/
inductive ScriptError where
  | ok | unknownError | evalFalse | opReturn
  | scriptSize | pushSize | opCount | stackSize | sigCount | pubkeyCount
  | verify | equalVerify | checkMultisigVerify | checkSigVerify | numEqualVerify
  | badOpcode | disabledOpcode | invalidStackOperation | invalidAltstackOperation | unbalancedConditional
  | negativeLocktime | unsatisfiedLocktime
  | sigHashtype | sigDer | minimalData | sigPushonly | sigHighS | sigNulldummy | pubkeytype | cleanstack
  | minimalIf | sigNullfail
  | discourageUpgradableNops | discourageUpgradableWitnessProgram
  | witnessProgramWrongLength | witnessProgramWitnessEmpty | witnessProgramMismatch | witnessMalleated
  | witnessMalleatedP2sh | witnessUnexpected | witnessPubkeytype
  | illegalForkid | mustUseForkid
  deriving DecidableEq, Repr

/-- `SigVersion`. -/
inductive SigVersion where
  | base | witnessV0
  deriving DecidableEq, Repr

/-! ## Opcodes, flags and limits -/

def op0 : Nat := 0x00
def opPushdata1 : Nat := 0x4c
def opPushdata2 : Nat := 0x4d
def opPushdata4 : Nat := 0x4e
def op1negate : Nat := 0x4f
def op1 : Nat := 0x51
def op16 : Nat := 0x60
def opIf : Nat := 0x63
def opNotif : Nat := 0x64
def opVerif : Nat := 0x65
def opVernotif : Nat := 0x66
def opElse : Nat := 0x67
def opEndif : Nat := 0x68
def opCreateNative : Nat := 0xc0
def opCreate : Nat := 0xc1
def opDepositToContract : Nat := 0xc6

/-- The opcodes that `EvalScript` refuses wherever they stand: `OP_CAT` ... `OP_RSHIFT`. -/
def disabledOpcodes : List Nat :=
  [0x7e, 0x7f, 0x80, 0x81, 0x83, 0x84, 0x85, 0x86, 0x8d, 0x8e, 0x95, 0x96, 0x97, 0x98, 0x99]

/-- The contract opcodes `OP_CREATE_NATIVE`, `OP_CREATE`, `OP_UPGRADE`, `OP_DESTROY`, `OP_CALL`,
`OP_SPEND` and `OP_DEPOSIT_TO_CONTRACT`: `0xc0` to `0xc6`. -/
def isContractOpcode (opcode : Nat) : Bool := decide (opCreateNative ≤ opcode ∧ opcode ≤ opDepositToContract)

/-- `SCRIPT_VERIFY_MINIMALDATA`. -/
def scriptVerifyMinimaldata : Nat := 2 ^ 6

/-- `SCRIPT_VERIFY_MINIMALIF`. -/
def scriptVerifyMinimalif : Nat := 2 ^ 13

def maxScriptElementSize : Nat := 1280000
def maxOpsPerScript : Nat := 201
def maxScriptSize : Nat := 129000
def maxStackSize : Nat := 1000

/-! ## Reading and pushing -/

/-- The length of a push and the bytes after it, as `CScript::GetOp2` reads them after a push
opcode: the opcode itself below `OP_PUSHDATA1`, else one, two or four little-endian bytes. -/
def readPushSize (opcode : Nat) (rest : List UInt8) : Option (Nat × List UInt8) :=
  if opcode < opPushdata1 then some (opcode, rest)
  else if opcode = opPushdata1 then
    if rest.length < 1 then none else some (Serialize.leValue (rest.take 1), rest.drop 1)
  else if opcode = opPushdata2 then
    if rest.length < 2 then none else some (Serialize.leValue (rest.take 2), rest.drop 2)
  else if rest.length < 4 then none else some (Serialize.leValue (rest.take 4), rest.drop 4)

/-- `CScript::GetOp2`: the opcode, its push data and the bytes after the instruction; `none` where
the script ends inside it. -/
def getOp : List UInt8 → Option (Nat × ValType × List UInt8)
  | [] => none
  | b :: rest =>
    if b.toNat ≤ opPushdata4 then
      match readPushSize b.toNat rest with
      | none => none
      | some (nSize, data) => if data.length < nSize then none else some (b.toNat, data.take nSize, data.drop nSize)
    else some (b.toNat, [], rest)

/-- `CastToBool`: false for zero and negative zero. -/
def castToBool : ValType → Bool
  | [] => false
  | [b] => b != 0 && b != 0x80
  | b :: rest => if b != 0 then true else castToBool rest

/-- `CheckMinimalPush(data, opcode)`. -/
def checkMinimalPush (data : ValType) (opcode : Nat) : Bool :=
  match data with
  | [] => opcode == op0
  | [b] =>
    if 1 ≤ b.toNat ∧ b.toNat ≤ 16 then opcode == op1 + (b.toNat - 1)
    else if b.toNat = 0x81 then opcode == op1negate
    else opcode == 1
  | _ =>
    if data.length ≤ 75 then opcode == data.length
    else if data.length ≤ 255 then opcode == opPushdata1
    else if data.length ≤ 65535 then opcode == opPushdata2
    else true

/-- `CScriptNum(opcode - (OP_1 - 1)).getvch()` for `OP_1NEGATE` and `OP_1` ... `OP_16`. -/
def smallNumBytes (opcode : Nat) : ValType :=
  if opcode = op1negate then [0x81] else [(opcode - (op1 - 1)).toUInt8]

/-! ## One instruction -/

/-- The locals of `EvalScript` that the loop carries. -/
structure ScriptState where
  stack : List ValType
  altstack : List ValType
  vfExec : List Bool
  nOpCount : Nat
  pbegincodehash : Nat
  deriving DecidableEq, Repr

/-- The cases of the `switch` the model leaves open: given the opcode, the position after it,
the flags and the signature version, they read and write the stack, the alt stack and
`pbegincodehash`, or fail. -/
abbrev DataOp :=
  Nat → Nat → Nat → SigVersion → List ValType × List ValType × Nat →
    Except ScriptError (List ValType × List ValType × Nat)

/-- After one instruction the loop goes on, or it has met a contract opcode and returns. -/
inductive Flow where
  | next (st : ScriptState)
  | stop (st : ScriptState)
  deriving DecidableEq, Repr

/-- The `switch (opcode)` of `EvalScript`, entered in an executed branch or for the opcodes
`OP_IF` ... `OP_ENDIF`. `scriptRest` is the script from the opcode on. -/
def execOpcode (dataOp : DataOp) (flags : Nat) (sigversion : SigVersion) (fExec : Bool)
    (opcode pc : Nat) (scriptRest : ValType) (st : ScriptState) : Except ScriptError Flow :=
  if opcode = op1negate ∨ (op1 ≤ opcode ∧ opcode ≤ op16) then
    .ok (.next { st with stack := st.stack ++ [smallNumBytes opcode] })
  else if opcode = opIf ∨ opcode = opNotif then
    if fExec then
      match st.stack.getLast? with
      | none => .error .unbalancedConditional
      | some vch =>
        if sigversion = .witnessV0 ∧ flags &&& scriptVerifyMinimalif ≠ 0 ∧
            (vch.length > 1 ∨ (vch.length = 1 ∧ vch ≠ [1])) then .error .minimalIf
        else
          let fValue := if opcode = opNotif then !castToBool vch else castToBool vch
          .ok (.next { st with stack := st.stack.dropLast, vfExec := st.vfExec ++ [fValue] })
    else .ok (.next { st with vfExec := st.vfExec ++ [false] })
  else if opcode = opElse then
    match st.vfExec.getLast? with
    | none => .error .unbalancedConditional
    | some fLast => .ok (.next { st with vfExec := st.vfExec.dropLast ++ [!fLast] })
  else if opcode = opEndif then
    if st.vfExec = [] then .error .unbalancedConditional
    else .ok (.next { st with vfExec := st.vfExec.dropLast })
  else if opcode = opVerif ∨ opcode = opVernotif then .error .badOpcode
  else if isContractOpcode opcode then
    -- `valtype scriptRest(pc - 1, pend); stack.push_back(scriptRest); return true;`
    .ok (.stop { st with stack := st.stack ++ [scriptRest] })
  else
    match dataOp opcode pc flags sigversion (st.stack, st.altstack, st.pbegincodehash) with
    | .ok (stack, altstack, pbegincodehash) => .ok (.next { st with stack, altstack, pbegincodehash })
    | .error e => .error e

theorem readPushSize_length {opcode nSize : Nat} {rest data : List UInt8}
    (hsized : readPushSize opcode rest = some (nSize, data)) : data.length ≤ rest.length := by
  unfold readPushSize at hsized
  split_ifs at hsized <;> simp only [Option.some.injEq, Prod.mk.injEq] at hsized <;>
    obtain ⟨-, rfl⟩ := hsized <;> simp

/-- Every instruction `GetOp` reads takes at least its opcode byte. -/
theorem getOp_length_lt {rest rest' : List UInt8} {opcode : Nat} {data : ValType}
    (hop : getOp rest = some (opcode, data, rest')) : rest'.length < rest.length := by
  match rest, hop with
  | b :: tail, hop =>
    simp only [getOp] at hop
    split_ifs at hop with hpush
    · cases hsized : readPushSize b.toNat tail with
      | none => simp [hsized] at hop
      | some sized =>
        obtain ⟨nSize, data'⟩ := sized
        have hdata := readPushSize_length hsized
        simp only [hsized] at hop
        split_ifs at hop
        simp only [Option.some.injEq, Prod.mk.injEq] at hop
        obtain ⟨-, -, rfl⟩ := hop
        simp only [List.length_drop, List.length_cons]
        omega
    · simp only [Option.some.injEq, Prod.mk.injEq] at hop
      obtain ⟨-, -, rfl⟩ := hop
      simp

theorem readPushSize_suffix {opcode nSize : Nat} {rest data : List UInt8}
    (hsized : readPushSize opcode rest = some (nSize, data)) : data <:+ rest := by
  unfold readPushSize at hsized
  split_ifs at hsized <;> simp only [Option.some.injEq, Prod.mk.injEq] at hsized <;>
    obtain ⟨-, rfl⟩ := hsized
  all_goals first | exact List.suffix_refl _ | exact List.drop_suffix _ _

/-- What `GetOp` leaves is a suffix of what it read, and the opcode is the first byte. -/
theorem getOp_cons {b : UInt8} {tail rest' : List UInt8} {opcode : Nat} {data : ValType}
    (hop : getOp (b :: tail) = some (opcode, data, rest')) : opcode = b.toNat ∧ rest' <:+ tail := by
  simp only [getOp] at hop
  split_ifs at hop with hpush
  · cases hsized : readPushSize b.toNat tail with
    | none => simp [hsized] at hop
    | some sized =>
      obtain ⟨nSize, data'⟩ := sized
      simp only [hsized] at hop
      split_ifs at hop
      simp only [Option.some.injEq, Prod.mk.injEq] at hop
      obtain ⟨rfl, -, rfl⟩ := hop
      exact ⟨rfl, (List.drop_suffix _ _).trans (readPushSize_suffix hsized)⟩
  · simp only [Option.some.injEq, Prod.mk.injEq] at hop
    obtain ⟨rfl, -, rfl⟩ := hop
    exact ⟨rfl, List.suffix_refl _⟩

/-- The only case of the `switch` that returns on the spot is a contract opcode, which has
pushed the rest of the script. -/
theorem execOpcode_stop {dataOp : DataOp} {flags : Nat} {sigversion : SigVersion} {fExec : Bool}
    {opcode pc : Nat} {scriptRest : ValType} {st st' : ScriptState}
    (hstop : execOpcode dataOp flags sigversion fExec opcode pc scriptRest st = .ok (.stop st')) :
    isContractOpcode opcode = true ∧ st'.stack = st.stack ++ [scriptRest] := by
  unfold execOpcode at hstop
  -- every other case of the `switch` ends in an error or in `next`
  split_ifs at hstop
  all_goals try (split at hstop)
  all_goals try (split_ifs at hstop)
  all_goals try (cases hstop; done)
  cases hstop
  exact ⟨by assumption, rfl⟩

/-! ## The loop -/

/-- The body of the loop of `EvalScript` for one instruction read by `GetOp`: the push size, the
opcode count and the disabled opcodes, then a push, the `switch`, or nothing in a branch that is
not executed. `pc` is the position after the instruction and `scriptRest` the script from it. -/
def evalInstruction (dataOp : DataOp) (flags : Nat) (sigversion : SigVersion) (fRequireMinimal : Bool)
    (pc : Nat) (st : ScriptState) (opcode : Nat) (vchPushValue : ValType) (scriptRest : ValType) :
    Except ScriptError Flow :=
  let fExec := !st.vfExec.contains false
  if vchPushValue.length > maxScriptElementSize then .error .pushSize
  else if opcode > op16 ∧ st.nOpCount + 1 > maxOpsPerScript then .error .opCount
  else if opcode ∈ disabledOpcodes then .error .disabledOpcode
  else
    let st := { st with nOpCount := if opcode > op16 then st.nOpCount + 1 else st.nOpCount }
    if fExec ∧ opcode ≤ opPushdata4 then
      if fRequireMinimal ∧ !checkMinimalPush vchPushValue opcode then .error .minimalData
      else .ok (.next { st with stack := st.stack ++ [vchPushValue] })
    else if fExec ∨ (opIf ≤ opcode ∧ opcode ≤ opEndif) then
      execOpcode dataOp flags sigversion fExec opcode pc scriptRest st
    else .ok (.next st)

/-- The `while (pc < pend)` loop of `EvalScript` over the bytes `rest` left to read; `pc` is
their position in the script. After every instruction that does not return, the two stacks are
held to `MAX_STACK_SIZE`. -/
def evalLoop (dataOp : DataOp) (flags : Nat) (sigversion : SigVersion) (fRequireMinimal : Bool)
    (pc : Nat) (st : ScriptState) (rest : List UInt8) : Except ScriptError ScriptState :=
  match rest with
  | [] => if st.vfExec = [] then .ok st else .error .unbalancedConditional
  | b :: tail =>
    match _hop : getOp (b :: tail) with
    | none => .error .badOpcode
    | some (opcode, vchPushValue, rest') =>
      let pc' := pc + ((b :: tail).length - rest'.length)
      match evalInstruction dataOp flags sigversion fRequireMinimal pc' st opcode vchPushValue (b :: tail) with
      | .error e => .error e
      | .ok (.stop st) => .ok st
      | .ok (.next st) =>
        if st.stack.length + st.altstack.length > maxStackSize then .error .stackSize
        else evalLoop dataOp flags sigversion fRequireMinimal pc' st rest'
termination_by rest.length
decreasing_by exact getOp_length_lt _hop

section Runs

variable {dataOp : DataOp} {flags : Nat} {sigversion : SigVersion} {fRequireMinimal : Bool}

/-- An instruction that returns on the spot is a contract opcode, and it leaves the rest of the
script on top of the stack. -/
theorem evalInstruction_stop {pc : Nat} {st st' : ScriptState} {opcode : Nat} {vchPushValue scriptRest : ValType}
    (hstop : evalInstruction dataOp flags sigversion fRequireMinimal pc st opcode vchPushValue scriptRest =
      .ok (.stop st')) :
    isContractOpcode opcode = true ∧ st'.stack.getLast? = some scriptRest := by
  simp only [evalInstruction] at hstop
  split_ifs at hstop
  all_goals try cases hstop
  -- what is left is the `switch`, with the opcode counted or not
  all_goals
    obtain ⟨hcontract, hstack⟩ := execOpcode_stop hstop
    exact ⟨hcontract, by rw [hstack, List.getLast?_concat]⟩

/-- At the end of the script the loop succeeds exactly when no conditional is open. -/
theorem evalLoop_nil_ok {pc : Nat} {st st' : ScriptState}
    (hok : evalLoop dataOp flags sigversion fRequireMinimal pc st [] = .ok st') : st'.vfExec = [] ∧ st' = st := by
  rw [evalLoop] at hok
  split_ifs at hok with hempty
  cases hok
  exact ⟨hempty, rfl⟩

/-- A run of the loop succeeds in one of two ways. Either it reads the whole script and no
conditional is open, the stacks within `MAX_STACK_SIZE` unless no instruction ran; or it meets
an executed contract opcode, whose bytes and what follows them are left on top of the stack. The
induction is on the length of what is left to read, which every instruction shortens. -/
theorem evalLoop_ok_cases (rest : List UInt8) (pc : Nat) (st st' : ScriptState)
    (hok : evalLoop dataOp flags sigversion fRequireMinimal pc st rest = .ok st') :
    (st'.vfExec = [] ∧ (st' = st ∨ st'.stack.length + st'.altstack.length ≤ maxStackSize)) ∨
      ∃ b tail, b :: tail <:+ rest ∧ isContractOpcode b.toNat = true ∧ st'.stack.getLast? = some (b :: tail) := by
  obtain ⟨n, hn⟩ : ∃ n, rest.length ≤ n := ⟨_, le_rfl⟩
  induction n generalizing rest pc st with
  | zero =>
    rw [List.length_eq_zero_iff.mp (Nat.le_zero.mp hn)] at hok
    obtain ⟨hempty, hsame⟩ := evalLoop_nil_ok hok
    exact Or.inl ⟨hempty, Or.inl hsame⟩
  | succ n ih =>
    cases rest with
    | nil =>
      obtain ⟨hempty, hsame⟩ := evalLoop_nil_ok hok
      exact Or.inl ⟨hempty, Or.inl hsame⟩
    | cons b tail =>
      rw [evalLoop] at hok
      split at hok
      · cases hok
      · rename_i opcode vchPushValue rest' hop
        obtain ⟨hopcode, hsuffix⟩ := getOp_cons hop
        have hshorter := getOp_length_lt hop
        dsimp only at hok
        split at hok
        · cases hok
        · -- the contract opcodes' `return true`
          rename_i st'' hstop
          cases hok
          obtain ⟨hcontract, htop⟩ := evalInstruction_stop hstop
          exact Or.inr ⟨b, tail, List.suffix_refl _, hopcode ▸ hcontract, htop⟩
        · -- the size check passed; the rest of the run starts from the checked state
          rename_i st'' hnext
          split_ifs at hok with hsize
          rcases ih rest' _ st'' hok (by simp only [List.length_cons] at hn hshorter; omega) with
            ⟨hempty, hsame | hbound⟩ | ⟨b', tail', hsuffix', hcontract, htop⟩
          · subst hsame
            exact Or.inl ⟨hempty, Or.inr (by omega)⟩
          · exact Or.inl ⟨hempty, Or.inr hbound⟩
          · exact Or.inr ⟨b', tail', hsuffix'.trans (hsuffix.trans (List.suffix_cons b tail)), hcontract, htop⟩

/-- `OP_1` alone, with the other opcodes left as they are: it reads the whole script, pushes
`1` and leaves no conditional open. -/
theorem evalLoop_ok_cases_opOne :
    ∃ st', evalLoop (fun _ _ _ _ s => .ok s) 0 .base false 0 ⟨[], [], [], 0, 0⟩ [0x51] = .ok st' ∧
      st'.stack = [[1]] ∧
      ((st'.vfExec = [] ∧ (st' = ⟨[], [], [], 0, 0⟩ ∨ st'.stack.length + st'.altstack.length ≤ maxStackSize)) ∨
        ∃ b tail, b :: tail <:+ [0x51] ∧ isContractOpcode b.toNat = true ∧ st'.stack.getLast? = some (b :: tail)) := by
  have hrun : evalLoop (fun _ _ _ _ s => .ok s) 0 .base false 0 ⟨[], [], [], 0, 0⟩ [0x51] =
      .ok ⟨[[1]], [], [], 0, 0⟩ := by
    rw [evalLoop]
    simp [getOp, evalInstruction, execOpcode, op1negate, op1, op16, opPushdata4, smallNumBytes, disabledOpcodes,
      maxScriptElementSize, maxStackSize]
    rw [evalLoop]
    rfl
  exact ⟨_, hrun, rfl, evalLoop_ok_cases [0x51] 0 _ _ hrun⟩

end Runs

/-- `EvalScript(stack, script, flags, checker, sigversion, serror)`: the stack it leaves, or the
error it sets. -/
def evalScript (dataOp : DataOp) (stack : List ValType) (script : List UInt8) (flags : Nat)
    (sigversion : SigVersion) : Except ScriptError (List ValType) :=
  if script.length > maxScriptSize then .error .scriptSize
  else
    (evalLoop dataOp flags sigversion (flags &&& scriptVerifyMinimaldata ≠ 0) 0
      ⟨stack, [], [], 0, 0⟩ script).map ScriptState.stack

/-- `OP_1 OP_IF OP_CREATE` succeeds with the conditional still open, and `OP_CREATE` on a full
stack succeeds with one element over `MAX_STACK_SIZE`, whatever the other opcodes do. -/
theorem evalScript_contract_return (dataOp : DataOp) (flags : Nat) (sigversion : SigVersion) :
    evalLoop dataOp flags sigversion (flags &&& scriptVerifyMinimaldata ≠ 0) 0 ⟨[], [], [], 0, 0⟩
        [0x51, 0x63, 0xc1] = .ok ⟨[[0xc1]], [], [true], 2, 0⟩ ∧
      evalScript dataOp [] [0x51, 0x63, 0xc1] flags sigversion = .ok [[0xc1]] ∧
      evalLoop dataOp flags sigversion (flags &&& scriptVerifyMinimaldata ≠ 0) 0
        ⟨List.replicate 1000 [], [], [], 0, 0⟩ [0xc1] = .ok ⟨List.replicate 1000 [] ++ [[0xc1]], [], [], 1, 0⟩ ∧
      evalScript dataOp (List.replicate 1000 []) [0xc1] flags sigversion = .ok (List.replicate 1000 [] ++ [[0xc1]]) ∧
      maxStackSize < (List.replicate 1000 ([] : ValType) ++ [[0xc1]]).length := by
  -- `OP_1` pushes, `OP_IF` opens a branch, `OP_CREATE` returns inside it
  have hopen : evalLoop dataOp flags sigversion (flags &&& scriptVerifyMinimaldata ≠ 0) 0 ⟨[], [], [], 0, 0⟩
      [0x51, 0x63, 0xc1] = .ok ⟨[[0xc1]], [], [true], 2, 0⟩ := by
    rw [evalLoop]
    simp [getOp, evalInstruction, execOpcode, op1negate, op1, op16, opPushdata4, smallNumBytes, disabledOpcodes,
      maxScriptElementSize, maxStackSize]
    rw [evalLoop]
    simp [getOp, evalInstruction, execOpcode, op1negate, op1, op16, opPushdata4, opIf, opNotif, castToBool,
      disabledOpcodes, maxScriptElementSize, maxStackSize, maxOpsPerScript]
    rw [evalLoop]
    simp [getOp, evalInstruction, execOpcode, op1negate, op1, op16, opPushdata4, opIf, opNotif, opElse, opEndif,
      opVerif, opVernotif, isContractOpcode, opCreateNative, opDepositToContract, disabledOpcodes,
      maxScriptElementSize, maxOpsPerScript]
  -- `OP_CREATE` as the first instruction returns before any size check, whatever the stack
  have hfirst : ∀ stack : List ValType, evalLoop dataOp flags sigversion (flags &&& scriptVerifyMinimaldata ≠ 0) 0
      ⟨stack, [], [], 0, 0⟩ [0xc1] = .ok ⟨stack ++ [[0xc1]], [], [], 1, 0⟩ := by
    intro stack
    rw [evalLoop]
    simp [getOp, evalInstruction, execOpcode, op1negate, op1, op16, opPushdata4, opIf, opNotif, opElse, opEndif,
      opVerif, opVernotif, isContractOpcode, opCreateNative, opDepositToContract, disabledOpcodes,
      maxScriptElementSize, maxOpsPerScript]
  have hover : maxStackSize < (List.replicate 1000 ([] : ValType) ++ [[0xc1]]).length := by
    rw [List.length_append, List.length_replicate, List.length_singleton]
    decide
  refine ⟨hopen, ?_, hfirst _, ?_, hover⟩
  · rw [evalScript, if_neg (by decide), hopen]
    rfl
  · rw [evalScript, if_neg (by decide), hfirst]
    rfl

end UnitedBitcoin.Script

import MyRiscvCore.Component.BranchPredictor

/-!
# MyRiscvCore — what the stages hand to each other

The pack records of `fetch_decode.h`, `decode_rename.h`, `rename_readreg.h`, `readreg_issue.h`,
`issue_execute.h`, `execute_wb.h` and `wb_commit.h`, and the feedback records of `commit.h`,
`execute.h` and `wb.h`. In the source each record repeats the fields of the one before it and adds
its own; here each extends the one before. The fields are grouped by who changes them after
`decode`: the decoded operation and the prediction never change, the exception fields do.

A record starts zeroed (`memset`), which is the `Inhabited` default.
-/

namespace MyRiscvCore

/-- The exception fields of a pack. -/
structure ExceptionInfo where
  hasException : Bool
  exceptionId : RiscvException
  exceptionValue : Word
  deriving DecidableEq, Inhabited

/-- The prediction fields of a pack. -/
structure PredictInfo where
  predicted : Bool
  predictedJump : Bool
  predictedNextPc : Word
  checkpointIdValid : Bool
  checkpointId : Nat
  deriving DecidableEq, Inhabited

/-- `fetch_decode_pack_t`. -/
structure FetchDecodePack extends ExceptionInfo, PredictInfo where
  pc : Word
  value : Word
  enable : Bool
  deriving DecidableEq, Inhabited

/-- The decoded operation: what `decode` computes from the instruction word. -/
structure DecodeInfo where
  enable : Bool
  value : Word
  valid : Bool
  pc : Word
  imm : Word
  rs1 : Nat
  arg1Src : ArgSrc
  rs1NeedMap : Bool
  rs2 : Nat
  arg2Src : ArgSrc
  rs2NeedMap : Bool
  rd : Nat
  rdEnable : Bool
  needRename : Bool
  csr : Nat
  op : Op
  opUnit : OpUnit
  subOp : SubOp
  deriving DecidableEq, Inhabited

/-- `decode_rename_pack_t`. -/
structure DecodeRenamePack extends DecodeInfo, ExceptionInfo, PredictInfo where
  deriving DecidableEq, Inhabited

/-- `rename_readreg_op_info_t`. -/
structure RenameReadregOp extends DecodeRenamePack where
  robId : Nat
  rs1Phy : Nat
  rs2Phy : Nat
  rdPhy : Nat
  deriving DecidableEq, Inhabited

/-- `readreg_issue_op_info_t`, and `issue_queue_item_t`, which has the same fields. -/
structure ReadregIssueOp extends RenameReadregOp where
  src1Value : Word
  src1Loaded : Bool
  src2Value : Word
  src2Loaded : Bool
  deriving DecidableEq, Inhabited

/-- `issue_execute_pack_t`. -/
structure IssueExecutePack extends ReadregIssueOp where
  lsuAddr : Word
  deriving DecidableEq, Inhabited

/-- `execute_wb_pack_t`, and `wb_commit_op_info_t`, which has the same fields. -/
structure ExecuteWbPack extends ReadregIssueOp where
  bruJump : Bool
  bruNextPc : Word
  rdValue : Word
  csrNewvalue : Word
  csrNewvalueValid : Bool
  deriving DecidableEq, Inhabited

/-- `execute_feedback_channel_t` and `wb_feedback_channel_t`. -/
structure FeedbackChannel where
  enable : Bool
  phyId : Nat
  value : Word
  deriving DecidableEq, Inhabited

/-- `commit_feedback_pack_t`. The arrays `committed_rob_id_valid` and `committed_rob_id` are the
list of the ids whose valid bit is set, in index order. -/
structure CommitFeedbackPack where
  enable : Bool
  nextHandleRobIdValid : Bool
  nextHandleRobId : Nat
  hasException : Bool
  exceptionPc : Word
  flush : Bool
  committedRobId : List Nat
  jumpEnable : Bool
  jump : Bool
  nextPc : Word
  deriving DecidableEq, Inhabited

/-- The test every stage starts with: `commit_feedback_pack.enable && commit_feedback_pack.flush`. -/
def CommitFeedbackPack.flushing (fb : CommitFeedbackPack) : Bool :=
  fb.enable && fb.flush

/-- The condition under which a result is fed back and written to the register file. -/
def ExecuteWbPack.writesRd (p : ExecuteWbPack) : Bool :=
  p.enable && p.valid && p.rdEnable && p.needRename && !p.hasException

/-- The feedback channel of a result. -/
def ExecuteWbPack.feedback (p : ExecuteWbPack) : FeedbackChannel where
  enable := p.writesRd
  phyId := p.rdPhy
  value := p.rdValue

end MyRiscvCore

import FileHolders.Windows.EntryPoints

/-!
# The token of the caller

Handles of other users can only be brought into an elevated process, and the privilege to debug
widens that further.  Both questions go through the caller's own token, which is closed again
whatever the answers are.
-/

namespace FileHolders.Windows

namespace Platform

variable {σ : Type}

open EntryPoints (call)

/-- The right to ask a token. -/
def tokenQuery : UInt32 := 0x0008

/-- The right to change the privileges of a token. -/
def tokenAdjust : UInt32 := 0x0020

/-- The class of the question whether a token is elevated, and the bytes of its answer. -/
def elevationClass : UInt32 := 20

def elevationSize : UInt32 := 4

def debugPrivilege : String := "SeDebugPrivilege"

/-- The attribute of a privilege that is switched on. -/
def enabledAttribute : UInt32 := 2

/-- Works with the caller's token and closes it afterwards. -/
def withToken {α : Type} (p : Platform σ) (access : UInt32)
    (work : HandleId → Action σ (Except ErrorCode α)) : Action σ (Except ErrorCode α) := do
  match ← call (p.openToken .ownProcess access) with
  | .error e => pure (.error e)
  | .ok token =>
    let result ← work token
    call (p.closeToken token)
    pure result

/-- Whether the caller is elevated; a question that fails counts as a no. -/
def isElevated (p : Platform σ) : Action σ Bool := do
  let answer ← p.withToken tokenQuery fun token =>
    call (p.tokenInformation token elevationClass elevationSize)
  match answer with
  | .ok elevation => pure (elevation ≠ 0)
  | .error _ => pure false

/-- Switches a privilege of a token on.  The change is reported as done even where the token does
not hold the privilege, so the last error is asked for as well. -/
def adjustDebugPrivilege (p : Platform σ) (token : HandleId) :
    Action σ (Except ErrorCode Unit) := do
  match ← call (p.lookupPrivilege debugPrivilege) with
  | .error e => pure (.error e)
  | .ok privilege =>
    match ← call (p.adjustPrivileges token { privileges := [(privilege, enabledAttribute)] }) with
    | .error e => pure (.error e)
    | .ok () =>
      let last ← call p.lastError
      if last = .notAllAssigned then pure (.error .notAllAssigned) else pure (.ok ())

/-- Switches the privilege to debug on. -/
def enableDebugPrivilege (p : Platform σ) : Action σ (Except ErrorCode Unit) :=
  p.withToken (tokenAdjust ||| tokenQuery) p.adjustDebugPrivilege

end Platform

end FileHolders.Windows

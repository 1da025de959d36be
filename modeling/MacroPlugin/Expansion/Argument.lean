import MacroPlugin.Expansion.Implementation

/-!
The argument of a macro call: what stands between the first opening and the last closing
parenthesis of its source.
-/

namespace MacroPlugin

namespace Argument

/-- The part before the last occurrence of `c`, if there is one. -/
def beforeLast? (c : Char) (text : List Char) : Option (List Char) :=
  match text.reverse.dropWhile (· ≠ c) with
  | [] => none
  | _ :: before => some before.reverse

/-- The part behind the first occurrence of `c`, if there is one. -/
def behindFirst? (c : Char) (text : List Char) : Option (List Char) :=
  match text.dropWhile (· ≠ c) with
  | [] => none
  | _ :: behind => some behind

end Argument

/-- The argument of the call that a fragment holds. -/
def Fragment.argument (fragment : Fragment) : Except Failure (List Char) :=
  match Argument.behindFirst? '(' fragment.source.toList with
  | none => .error (.malformed fragment.source "expected an argument list")
  | some behind =>
    match Argument.beforeLast? ')' behind with
    | none => .error (.malformed fragment.source "unterminated argument list")
    | some argument => .ok argument

end MacroPlugin

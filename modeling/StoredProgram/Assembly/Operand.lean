import StoredProgram.Assembly.LineError
import StoredProgram.Register
import StoredProgram.Word

set_option autoImplicit false

namespace StoredProgram

/-- Reads a reference. The form of the token comes first: stars, then ASCII letters and digits. Only a
token of that form can have too many stars, and only one with few enough stars is looked up. -/
def Reference.parse (token : String) : Except LineError Reference :=
  let stars := (token.toList.takeWhile (· = '*')).length
  let name := token.toList.dropWhile (· = '*')
  if name ≠ [] ∧ name.all Char.isAlphanum then
    if few : stars < 8 then
      match Register.ofName? (String.ofList name) with
      | some register => .ok ⟨⟨stars, few⟩, register⟩
      | none => .error (.invalidRegister token)
    else .error (.tooManyIndirections token)
  else .error (.invalidRegister token)

namespace Immediate

/-- The number `n` as an immediate of `width` bits, where `literal` is its text. -/
def fit (literal : String) (n width : Nat) : Except LineError Word :=
  if n < Nat.pow 2 width then .ok (BitVec.ofNat 32 n) else .error (.immediateOutOfRange literal width)

/-- Reads an immediate of `width` bits. Of a wider immediate than a word the low 32 bits remain. -/
def parse (token : String) (width : Nat) : Except LineError Word :=
  match Decimal.natural? token.toList with
  | some n => fit token n width
  | none => .error (.invalidImmediate token)

end Immediate
end StoredProgram

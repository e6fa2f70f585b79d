import Lendoor.Backend.Strkey
import Mathlib.Data.List.DropRight

/-! # Requests of the HTTP API

The exceptions that leave the API's services, and the wallet identity they key their
users by.
-/

namespace Lendoor.Backend

open Cctp (Text isHexDigit)

/-- The exception classes of the API. `rejected` is what an awaited call rejects with. -/
inductive HttpException
  | badRequest
  | unauthorized
  | forbidden
  | notFound
  | conflict
  | preconditionRequired
  | tooManyRequests
  | serviceUnavailable
  | rejected
  deriving DecidableEq, Repr

structure HttpError where
  exception : HttpException
  message : String
  deriving DecidableEq, Repr

/-- What `String.prototype.trim` takes off. -/
def isJsSpace (c : Char) : Bool :=
  let n := c.toNat
  (9 ≤ n && n ≤ 13) || n == 0x20 || n == 0xA0 || n == 0x1680 || (0x2000 ≤ n && n ≤ 0x200A) ||
    n == 0x2028 || n == 0x2029 || n == 0x202F || n == 0x205F || n == 0x3000 || n == 0xFEFF

def trim (s : Text) : Text :=
  ((s.dropWhile isJsSpace).reverse.dropWhile isJsSpace).reverse

/-- What is trimmed has no space left at its ends. -/
theorem trim_trim (s : Text) : trim (trim s) = trim s := by
  have htrim : ∀ s, trim s = (s.dropWhile isJsSpace).rdropWhile isJsSpace := fun _ => rfl
  have hhead : ((s.dropWhile isJsSpace).rdropWhile isJsSpace).dropWhile isJsSpace =
      (s.dropWhile isJsSpace).rdropWhile isJsSpace := by
    rw [List.dropWhile_eq_self_iff]
    intro hpos hspace
    have hbegins := List.rdropWhile_prefix isJsSpace (s.dropWhile isJsSpace)
    have hdrop := List.dropWhile_eq_self_iff.mp (List.dropWhile_idempotent isJsSpace s)
    refine hdrop (lt_of_lt_of_le hpos hbegins.length_le) ?_
    rwa [hbegins.getElem hpos] at hspace
  rw [htrim (trim s), htrim s, hhead, List.rdropWhile_idempotent]

/-- `EVM_WALLET_ADDRESS_PATTERN` -/
def isEvmWalletAddress : Text → Bool
  | '0' :: 'x' :: digits => digits.length == 40 && digits.all isHexDigit
  | _ => false

/-- Hexadecimal addresses are lowered; account identifiers are case-sensitive. -/
def normalizeWallet (addr : Text) : Except HttpError Text :=
  let w := trim addr
  if isEvmWalletAddress w then .ok (w.map Char.toLower)
  else if isValidStellarPublicKey w then .ok w
  else .error ⟨.badRequest, "Invalid wallet address"⟩

end Lendoor.Backend

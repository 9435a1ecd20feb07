import ChainAccess.Chain.Address
-- What can go wrong when the key of an account is asked for.

namespace ChainAccess

/-- A failure to unlock the key of an account. -/
inductive AccountError where
  | directoryNotFound (path : String)
  | keyNotFound (address : Address)
  | decryption (address : Address) (message : String)
  | addressMismatch (expected actual : Address)
  | io (message : String)
  | internal (message : String)
  deriving DecidableEq, Repr

/-- The words for a failure. -/
def AccountError.message : AccountError → String
  | .directoryNotFound path => "Keystore directory not found: " ++ path
  | .keyNotFound a => "No keystore file found for account " ++ a.checksummed
  | .decryption a m => "Failed to decrypt keystore of account " ++ a.checksummed ++ ": " ++ m
  | .addressMismatch expected actual =>
    "Keystore holds the key of " ++ actual.checksummed ++ ", expected " ++ expected.checksummed
  | .io m => "Keystore I/O error: " ++ m
  | .internal m => "Internal error: " ++ m

end ChainAccess

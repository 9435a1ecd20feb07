import ChainAccess.Account.Error
import ChainAccess.Crypto.Aes
import ChainAccess.Crypto.Derivation
import ChainAccess.Crypto.Secp256k1
import ChainAccess.Files.Tree
import ChainAccess.Json.Record
import ChainAccess.Text.Utf8
-- Keystores: files that hold private keys behind a password. The file of an
-- account is the first one, in the order of the names, whose name or whose
-- `address` member holds the digits of the address.

namespace ChainAccess.Keystore

open Secp256k1 (PrivateKey)

/-! ## Finding the file of an account -/

/-- Whether the name of a file holds the digits of the address, in any case. -/
def nameMatches (address : Address) (name : String) : Bool :=
  Text.contains address.digits (Text.lower name.toList)

/-- The `address` member of a keystore, if the content is a record with one. -/
def addressMember? (content : Bytes) : Option String :=
  let shape : Json.Shape := ⟨[Json.nullableField "address" Json.readString], false⟩
  let read : Json.Read (Option String) := fun v => do
    let r ← shape.read v
    r.get? "address" Json.readString
  (((Json.readBytes content).as read).toOption).join

/-- Whether the `address` member holds the digits of the address, in any case
and behind any markers. -/
def contentMatches (address : Address) (content : Bytes) : Bool :=
  (addressMember? content).any fun field =>
    Text.lower (Hex.stripMarkers field.toList) = address.digits

/-- The files of a directory in the order of their names, each with its content
unless it cannot be read. -/
def filesOf (entries : List (String × FileTree)) : List (String × Option Bytes) :=
  (entries.filterMap fun (name, e) =>
    match e with
    | .file content => some (name, some content)
    | .sealed => some (name, none)
    | .dir _ => none).mergeSort fun a b => a.1 ≤ b.1

/-- Whether a file is one of the account. -/
def isFileOf (address : Address) : String × Option Bytes → Bool
  | (name, content) => content.any (contentMatches address) || nameMatches address name

/-- The file of an account in the directory at a path. -/
def find (dir : Option FileTree) (path : String) (address : Address) :
    Except AccountError (String × Option Bytes) :=
  match dir with
  | some (.dir entries) =>
    match (filesOf entries).find? (isFileOf address) with
    | some file => .ok file
    | none => .error (.keyNotFound address)
  | _ => .error (.directoryNotFound path)

/-! ## The content of a keystore -/

/-- How the key of the cipher follows from the password. -/
inductive Derivation where
  | repeated (rounds : UInt32) (size : Nat) (salt : Bytes)
  | memory (n p r : UInt32) (size : Nat) (salt : Bytes)

/-- What a keystore holds. -/
structure Content where
  iv : Bytes
  ciphertext : Bytes
  derivation : Derivation
  mac : Bytes

/-- Reads digits without a marker. -/
def readHex : Json.Read Bytes
  | .str s => ((Hex.decode s.toList).toOption).elim (.error .malformed) .ok
  | _ => .error .malformed

/-- Reads a number of one byte. -/
def readByte : Json.Read Nat
  | .num (.nat n) => if n.toNat < 256 then .ok n.toNat else .error .malformed
  | _ => .error .malformed

/-- Whether a text is an id: 32 digits, with dashes behind the eighth, twelfth,
sixteenth and twentieth or without any; those with dashes may stand in braces
or behind `urn:uuid:`. -/
def isId (s : String) : Bool :=
  let isDigit (c : Char) : Bool := (Hex.value? c).isSome
  let dashed (cs : List Char) : Bool :=
    cs.length = 36 && cs.zipIdx.all fun (c, i) =>
      if i = 8 || i = 13 || i = 18 || i = 23 then c = '-' else isDigit c
  let cs := s.toList
  dashed cs || (cs.length = 32 && cs.all isDigit) ||
    (cs.length = 38 && cs.head? = some '\x7b' && cs.getLast? = some '\x7d' &&
      dashed ((cs.drop 1).take 36)) ||
    (s.startsWith "urn:uuid:" && dashed (cs.drop 9))

/-- Reads an id. -/
def readId : Json.Read Unit
  | .str s => if isId s then .ok () else .error .malformed
  | _ => .error .malformed

/-- Reads the name of a derivation, which must be one of two; it may also be
the only member of a record, with `null` as its value. -/
def readKdf : Json.Read Unit
  | .str "pbkdf2" | .str "scrypt" => .ok ()
  | .obj [("pbkdf2", .null)] | .obj [("scrypt", .null)] => .ok ()
  | _ => .error .malformed

/-- Reads the parameters of repeated hashing. -/
def readRepeated : Json.Read Derivation := fun v => do
  let shape : Json.Shape :=
    ⟨[Json.field "c" Json.readUInt32, Json.field "dklen" readByte, Json.field "prf" Json.readString,
      Json.field "salt" readHex], false⟩
  let r ← shape.read v
  return .repeated (← r.get "c" Json.readUInt32) (← r.get "dklen" readByte)
    (← r.get "salt" readHex)

/-- Reads the parameters of hashing through memory. -/
def readMemory : Json.Read Derivation := fun v => do
  let shape : Json.Shape :=
    ⟨[Json.field "dklen" readByte, Json.field "n" Json.readUInt32, Json.field "p" Json.readUInt32,
      Json.field "r" Json.readUInt32, Json.field "salt" readHex], false⟩
  let r ← shape.read v
  return .memory (← r.get "n" Json.readUInt32) (← r.get "p" Json.readUInt32)
    (← r.get "r" Json.readUInt32) (← r.get "dklen" readByte) (← r.get "salt" readHex)

/-- Reads parameters of either kind; their shape tells which. Here nothing is
passed over that cannot be read. -/
def readDerivation : Json.Read Derivation := fun v =>
  if v.isFaulty then .error .malformed
  else
    match readRepeated v with
    | .ok d => .ok d
    | .error _ => readMemory v

/-- Reads the parameters of the cipher. -/
def readIv : Json.Read Bytes := fun v => do
  let shape : Json.Shape := ⟨[Json.field "iv" readHex], false⟩
  let r ← shape.read v
  r.get "iv" readHex

/-- Reads the part of a keystore with the encrypted key. -/
def readCrypto : Json.Read Content := fun v => do
  let shape : Json.Shape :=
    ⟨[Json.field "cipher" Json.readString, Json.field "cipherparams" readIv,
      Json.field "ciphertext" readHex, Json.field "kdf" readKdf,
      Json.field "kdfparams" readDerivation, Json.field "mac" readHex], false⟩
  let r ← shape.read v
  return ⟨← r.get "cipherparams" readIv, ← r.get "ciphertext" readHex,
    ← r.get "kdfparams" readDerivation, ← r.get "mac" readHex⟩

/-- Reads a keystore. -/
def readContent : Json.Read Content := fun v => do
  let shape : Json.Shape :=
    ⟨[Json.field "crypto" readCrypto, Json.field "id" readId, Json.field "version" readByte], false⟩
  let r ← shape.read v
  r.get "crypto" readCrypto

/-! ## Decrypting -/

/-- Why a keystore gives no key. -/
inductive Fault where
  | sealed | notText | unreadable | badParameters | badSize | wrongMac | badKey
  /-- The keystore lacks bytes that decrypting needs. -/
  | broken

/-- The whole part of the logarithm to the base two. -/
def logTwo (n : UInt32) : Nat := Nat.log2 n.toNat

/-- Whether hashing through memory is defined for `2 ^ cost` blocks of size
`r` in `p` lanes, and their bytes can be counted in 64 bits. -/
def areParameters (cost r p : Nat) : Bool :=
  0 < r && 0 < p && cost < 16 * r && r * p < Nat.pow 2 30 && 128 * r * Nat.pow 2 cost < UInt64.size

/-- The key of the cipher. -/
def Derivation.key (password : Bytes) : Derivation → Except Fault Bytes
  | .repeated rounds size salt => .ok (pbkdf2 password salt rounds.toNat size)
  | .memory n p r size salt =>
    if !areParameters (logTwo n) r.toNat p.toNat then .error .badParameters
    else if size = 0 then .error .badSize
    else .ok (scrypt password salt (Nat.pow 2 (logTwo n)) r.toNat p.toNat size)

/-- The private key in a keystore. -/
def decrypt (password content : Bytes) : Except Fault PrivateKey := do
  if (Utf8.text? content).isNone then throw .notText
  let c ← ((Json.readBytes content).as readContent).mapError fun _ => .unreadable
  let key ← c.derivation.key password
  if key.length < 32 then throw .broken
  if keccak256 ((key.drop 16).take 16 ++ c.ciphertext) ≠ c.mac then throw .wrongMac
  if c.iv.length < 16 then throw .broken
  match PrivateKey.ofBytes? (Aes.ctr (key.take 16) (c.iv.take 16) c.ciphertext) with
  | some k => return k
  | none => throw .badKey

/-- The private key in the file of a keystore. -/
def decryptFile (password : Bytes) : Option Bytes → Except Fault PrivateKey
  | none => .error .sealed
  | some content => decrypt password content

/-- What a fault means for the account. -/
def Fault.toError (address : Address) : Fault → AccountError
  | .sealed => .decryption address "IO: Permission denied (os error 13)"
  | .notText => .decryption address "IO: stream did not contain valid UTF-8"
  | .unreadable => .decryption address "serde-json: not a keystore"
  | .badParameters => .decryption address "scrypt InvalidParams"
  | .badSize => .decryption address "scrypt InvalidOutputLen"
  | .wrongMac => .decryption address "Mac Mismatch"
  | .badKey => .decryption address "signature error"
  | .broken => .internal "decryption broke off"

/-- The key of an account from the keystores in the directory at a path. -/
def unlock (dir : Option FileTree) (path : String) (address : Address) (password : String) :
    Except AccountError PrivateKey := do
  let (_, content) ← find dir path address
  let key ← (decryptFile (Utf8.encode password) content).mapError (Fault.toError address)
  if key.address = address then return key
  else throw (.addressMismatch address key.address)

end ChainAccess.Keystore

/-
# Codecs

A codec turns values into payloads and back. Its version is kept beside each payload it makes.
-/
import ObjectPile.CodecVersion

namespace ObjectPile

/-- Why a value has no payload. -/
inductive EncodeError where
  /-- A map has keys that are no strings. -/
  | keyNotString
  /-- The codec only takes strings; the JSON text of the value is given. -/
  | notAString (text : String)
  deriving DecidableEq, Repr, Inhabited

def EncodeError.message : EncodeError → String
  | .keyNotString => "key must be a string"
  | .notAString text => "not a string: " ++ text

/-- An error of a codec. -/
inductive CodecError where
  | encode (cause : EncodeError)
  /-- The payload does not spell a value of the wanted type. -/
  | decode
  deriving DecidableEq, Repr, Inhabited

def CodecError.message : CodecError → String
  | .encode cause => "failed to encode object: " ++ cause.message
  | .decode => "failed to decode object"

/-- A codec for the values of a type. -/
structure Codec (α : Type) where
  version : CodecVersion
  encode : α → Except CodecError (List UInt8)
  decode : List UInt8 → Except CodecError α

end ObjectPile

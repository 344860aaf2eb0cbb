/-
# Codecs of JSON values

Two codecs for values of a shape that are kept as JSON. `Codec.json` makes the JSON text of the
value its payload. `Codec.plainText` takes strings only and makes their UTF-8 bytes the payload.
-/
import ObjectPile.Codec.Basic
import ObjectPile.Json.Shape
import ObjectPile.Json.Writer

namespace ObjectPile.Codec

/-- The value as it is written, or why it cannot be: only the empty map of pairs has a JSON text,
that of the empty object. -/
def written (shape : Shape) (v : Json) : Except CodecError Json :=
  match shape, v with
  | .pairs, .array [] => .ok (.object [])
  | .pairs, _ => .error (.encode .keyNotString)
  | _, v => .ok v

/-- The codec whose payloads are JSON texts. -/
def json (shape : Shape) : Codec Json where
  version := .json
  encode v := (written shape v).map Json.bytes
  decode payload :=
    match shape.read? payload with
    | some v => .ok v
    | none => .error .decode

/-- The tag of payloads that are plain text. -/
def plainTextVersion : CodecVersion := ⟨⟨5, by decide⟩⟩

/-- The codec whose payloads are the bytes of strings. -/
def plainText (shape : Shape) : Codec Json where
  version := plainTextVersion
  encode v := do
    match ← written shape v with
    | .string s => return Text.utf8 s.toList
    | v => throw (.encode (.notAString v.sorted.text))
  decode payload :=
    match (Text.ofUtf8? payload).bind fun s => shape.conform? (.string s) with
    | some v => .ok v
    | none => .error .decode

end ObjectPile.Codec

import SlimHub.Lib.Text

/-! Exceptions. A raised exception carries its class, which decides what handler catches it, and
    its message as the f-string writes it: literal parts and the values put between them. -/

namespace SlimHub
open Text

inductive ExnClass where
  | valueError
  | packetParseError
  | unicodeEncodeError
  | unicodeDecodeError
  | jsonDecodeError
  | recursionError
  | overflowError
  | osError
  | structError
  | typeError
  | attributeError
  | runtimeError
  | timeoutError
  | bleakError
  /-- Any other subclass of `Exception`. -/
  | other
  deriving DecidableEq

/-- A part of an f-string. `repr` is the `!r` conversion, `hex` is `bytes.hex(' ')`. -/
inductive Part where
  | lit (s : String)
  | str (s : Str)
  | repr (s : Str)
  | int (n : ℤ)
  | hex (b : Bytes)
  deriving DecidableEq

structure PyError where
  cls : ExnClass
  message : List Part
  deriving DecidableEq

end SlimHub

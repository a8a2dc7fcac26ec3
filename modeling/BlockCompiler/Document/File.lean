import BlockCompiler.Document.Building
import BlockCompiler.Json.Reader
import BlockCompiler.Text.Utf8

/-!
Files of documents: UTF-8 text with line ends of any kind that holds one JSON value.
-/

namespace BlockCompiler

/-- Why a file holds no JSON. -/
inductive FileError where
  | encoding (error : Utf8Error)
  | json (error : JsonError)

/-- What a file error says. -/
def FileError.message : FileError → String
  | .encoding error => error.message
  | .json error => error.message

/-- What is read from a file. Whole numbers may have as many digits as can be written. -/
def Reading.ofFile (bytes : List UInt8) : Except FileError Reading :=
  match readUtf8 bytes with
  | .error error => .error (.encoding error)
  | .ok text => (Reading.ofText (some digitLimit) (unifyLineEnds text)).mapError .json

/-- Why a file holds no document. -/
inductive FileCheckError where
  | file (error : FileError)
  | schema (error : SchemaError)

/-- What is read from a file, which must be a document. -/
def checkFile (strict : Bool) (bytes : List UInt8) : Except FileCheckError Reading :=
  match Reading.ofFile bytes with
  | .error error => .error (.file error)
  | .ok reading =>
    match Document.ofJson strict reading.data with
    | .error error => .error (.schema error)
    | .ok _ => .ok reading

end BlockCompiler

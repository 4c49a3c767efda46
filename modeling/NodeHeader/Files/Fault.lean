/-
  Why an operation on files fails, with the wording of the system's own reports.
-/

namespace NodeHeader.Files

/-- The cause of a failed operation on files. -/
inductive Fault where
  | notFound
  /-- A name is to be looked up in something that is no directory. -/
  | notADirectory
  /-- A directory is where a file is needed. -/
  | isADirectory
  /-- Something is already where a new item is to be made. -/
  | alreadyExists
  /-- A name or a whole path is too long. -/
  | nameTooLong
  /-- Symbolic links lead on and on. -/
  | tooManyLinks
  /-- The place of a directory within itself cannot be taken. -/
  | busy
  /-- A path holds a zero byte. -/
  | zeroByte
  /-- The contents are no UTF-8 text. -/
  | notUtf8
  /-- Any other cause, in the system's words. -/
  | other (text : String)
deriving DecidableEq, Repr

/-- The system's report of the cause. -/
def Fault.message : Fault → String
  | notFound => "No such file or directory (os error 2)"
  | notADirectory => "Not a directory (os error 20)"
  | isADirectory => "Is a directory (os error 21)"
  | alreadyExists => "File exists (os error 17)"
  | nameTooLong => "File name too long (os error 36)"
  | tooManyLinks => "Too many levels of symbolic links (os error 40)"
  | busy => "Device or resource busy (os error 16)"
  | zeroByte => "file name contained an unexpected NUL byte"
  | notUtf8 => "stream did not contain valid UTF-8"
  | other text => text

end NodeHeader.Files

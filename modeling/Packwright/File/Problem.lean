/-!
# Failures of the file system

The ways in which reading or writing a file can fail, with the wording the operating system gives
them.
-/

namespace Packwright.File

/-- Why a file operation failed. -/
inductive Problem where
  /-- There is nothing at the path. -/
  | notFound
  /-- Something stands where a directory was to be made. -/
  | alreadyExists
  /-- A part of the path before its last name is a file. -/
  | notDirectory
  /-- The path names a directory where a file is wanted. -/
  | isDirectory
  /-- The path, or a name in it, is longer than the file system allows. -/
  | nameTooLong
  /-- The path contains the character zero, which no file name can have. -/
  | zeroInName
  /-- The bytes read are not UTF-8. -/
  | notText
  deriving DecidableEq, Repr, Inhabited

/-- The wording of a failed file operation. -/
def Problem.message : Problem → String
  | .notFound => "No such file or directory (os error 2)"
  | .alreadyExists => "File exists (os error 17)"
  | .notDirectory => "Not a directory (os error 20)"
  | .isDirectory => "Is a directory (os error 21)"
  | .nameTooLong => "File name too long (os error 36)"
  | .zeroInName => "file name contained an unexpected NUL byte"
  | .notText => "stream did not contain valid UTF-8"

end Packwright.File

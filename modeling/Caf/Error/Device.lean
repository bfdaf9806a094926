/-!
# Device errors

The failures of what holds the bytes: a file system, or a store that was told to fail. Each has a
class and a wording.
-/

namespace Caf

/-- What a device that holds bytes can fail with. -/
inductive DeviceError where
  /-- The bytes ended inside a record. -/
  | endOfBytes
  /-- The device took none of the bytes it was given. -/
  | nothingWritten
  /-- A seek to a place before the start or beyond the largest offset of memory. -/
  | impossibleSeek
  /-- A seek to a place that no file offset reaches. -/
  | invalidArgument
  /-- No file of this name. -/
  | notFound
  /-- The name is that of a directory. -/
  | isDirectory
  /-- The path leads through a file. -/
  | notDirectory
  /-- A part of the path is longer than file systems allow. -/
  | nameTooLong
  /-- A path with a character that no path can have. -/
  | nulInPath
  /-- The bytes from some offset on cannot be read. -/
  | badSector
  /-- No room for another byte. -/
  | diskFull
  /-- The cursor is too far out for writing. -/
  | storeLimit
  /-- The device does not seek. -/
  | seekFailed
  /-- The device does not flush. -/
  | deviceGone
  /-- Any other failure, in the device's own words. -/
  | other (message : String)
  deriving DecidableEq, Repr

namespace DeviceError

/-- The classes of device failures. -/
inductive Kind where
  /-- Too few bytes. -/
  | unexpectedEof
  /-- Nothing was written. -/
  | writeZero
  /-- An argument without meaning. -/
  | invalidInput
  /-- Nothing of this name. -/
  | notFound
  /-- A directory where a file is wanted. -/
  | isADirectory
  /-- A file where a directory is wanted. -/
  | notADirectory
  /-- A name that cannot be one. -/
  | invalidFilename
  /-- Everything else. -/
  | other
  deriving DecidableEq, Repr

/-- The class of a failure. -/
def kind : DeviceError → Kind
  | endOfBytes => .unexpectedEof
  | nothingWritten => .writeZero
  | impossibleSeek => .invalidInput
  | invalidArgument => .invalidInput
  | notFound => .notFound
  | isDirectory => .isADirectory
  | notDirectory => .notADirectory
  | nameTooLong => .invalidFilename
  | nulInPath => .invalidInput
  | badSector => .other
  | diskFull => .other
  | storeLimit => .other
  | seekFailed => .other
  | deviceGone => .other
  | other _ => .other

/-- The wording of a failure. -/
def message : DeviceError → String
  | endOfBytes => "failed to fill whole buffer"
  | nothingWritten => "failed to write whole buffer"
  | impossibleSeek => "invalid seek to a negative or overflowing position"
  | invalidArgument => "Invalid argument (os error 22)"
  | notFound => "No such file or directory (os error 2)"
  | isDirectory => "Is a directory (os error 21)"
  | notDirectory => "Not a directory (os error 20)"
  | nameTooLong => "File name too long (os error 36)"
  | nulInPath => "file name contained an unexpected NUL byte"
  | badSector => "bad sector"
  | diskFull => "disk full"
  | storeLimit => "store limit"
  | seekFailed => "seek failed"
  | deviceGone => "device gone"
  | other message => message

end DeviceError

end Caf

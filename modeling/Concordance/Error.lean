import Concordance.Bytes.Utf8
import Concordance.Text.Quoted

namespace Concordance

inductive SystemFault
  | noEntry
  | busy
  | alreadyExists
  | noDevice
  | notDirectory
  | isDirectory
  | invalidArgument
  | nameTooLong
  | notEmpty
  | zeroInName
  | other (message : String)
  deriving DecidableEq

def SystemFault.message : SystemFault → String
  | .noEntry => "No such file or directory (os error 2)"
  | .busy => "Device or resource busy (os error 16)"
  | .alreadyExists => "File exists (os error 17)"
  | .noDevice => "No such device (os error 19)"
  | .notDirectory => "Not a directory (os error 20)"
  | .isDirectory => "Is a directory (os error 21)"
  | .invalidArgument => "Invalid argument (os error 22)"
  | .nameTooLong => "File name too long (os error 36)"
  | .notEmpty => "Directory not empty (os error 39)"
  | .zeroInName => "file name contained an unexpected NUL byte"
  | .other m => m

inductive IoFault
  | text (message : String)
  | shortRead
  | invalidText
  | outputClosed
  | seekBeforeStart
  | seekOutOfRange
  | writeRefused
  | system (fault : SystemFault)
  deriving DecidableEq

def IoFault.message : IoFault → String
  | .text m => m
  | .shortRead => "failed to fill whole buffer"
  | .invalidText => "stream did not contain valid UTF-8"
  | .outputClosed => "Output is closed"
  | .seekBeforeStart => "Invalid seek position"
  | .seekOutOfRange => "invalid seek to a negative or overflowing position"
  | .writeRefused => "write refused"
  | .system fault => fault.message

inductive IndexFault
  | text (message : String)
  | duplicateDocument (id : Bytes)
  | noIndices (directory : String)
  deriving DecidableEq

def IndexFault.message : IndexFault → String
  | .text m => m
  | .duplicateDocument id => "duplicate document id " ++ Text.quoted (Utf8.lossy id)
  | .noIndices directory => "no indices found in " ++ directory

inductive StorageCall
  | openFile
  | create
  | delete
  | rename
  deriving DecidableEq

def StorageCall.name : StorageCall → String
  | .openFile => "open"
  | .create => "create"
  | .delete => "delete"
  | .rename => "rename"

inductive StorageFault
  | text (message : String)
  | fileNotFound (name : String)
  | failed (message : String)
  | invalidOperation (message : String)
  | system (fault : SystemFault)
  | renameFailed (fault : SystemFault)
  | deleteFailed (fault : SystemFault)
  | directoryFailed (fault : SystemFault)
  | notDirectory (path : String)
  | mapFailed (name : String) (fault : SystemFault)
  | noTemporaryName (stem : String)
  | refused (call : StorageCall) (name : String)
  deriving DecidableEq

def StorageFault.message : StorageFault → String
  | .text m => m
  | .fileNotFound name => "File not found: " ++ name
  | .failed m => "I/O error: " ++ m
  | .invalidOperation m => "Invalid operation: " ++ m
  | .system fault => "I/O error: " ++ fault.message
  | .renameFailed fault => "I/O error: Failed to rename file: " ++ fault.message
  | .deleteFailed fault => "I/O error: Failed to delete file: " ++ fault.message
  | .directoryFailed fault => "Failed to create directory: " ++ fault.message
  | .notDirectory path => "Path is not a directory: " ++ path
  | .mapFailed name fault => s!"Failed to mmap file {name}: {fault.message}"
  | .noTemporaryName stem => "I/O error: Could not create temporary file for " ++ stem
  | .refused call name => s!"{call.name} of {name} refused"

inductive DumpFault
  | opening (found : UInt8)
  | lengthDigit (found : UInt8)
  | lengthOverflow
  | lengthTruncated
  | fieldTruncated (due found : Nat)
  | missing (token : String)
  deriving DecidableEq

def DumpFault.message : DumpFault → String
  | .opening b => "expected '+' or end of dump, found " ++ Text.quotedChar (Char.ofNat b.toNat)
  | .lengthDigit b => s!"unexpected {Text.quotedChar (Char.ofNat b.toNat)} in length"
  | .lengthOverflow => "length overflow"
  | .lengthTruncated => "truncated length"
  | .fieldTruncated due found => s!"expected {due} bytes, found {found}"
  | .missing token => "expected " ++ Text.quoted token

inductive RecordPart
  | key
  | value
  deriving DecidableEq

def RecordPart.name : RecordPart → String
  | .key => "key"
  | .value => "value"

inductive FormatFault
  | text (message : String)
  | varintOverflow
  | varintTruncated
  | postingCount (claimed : UInt64) (available : Nat)
  | postingIdTruncated
  | postingTrailing (left : Nat)
  | headerTruncated (found : Nat)
  | headerMagic
  | headerVersion (version : UInt32)
  | headerChecksum
  | storeTruncated (length : Nat)
  | tableOutside (bucket start stop : Nat)
  | recordOutside (position : Nat)
  | recordTruncated (position : Nat)
  | recordUnaddressable
  | partTooLong (part : RecordPart) (length : Nat)
  | offsetTooLarge (offset : Nat)
  | dumpUnclosed
  | dumpRecord (number : Nat) (fault : DumpFault)
  | indexTruncated (size : Nat)
  | indexLength (described size : Nat)
  | analyzerMismatch
  deriving DecidableEq

def FormatFault.message : FormatFault → String
  | .text m => m
  | .varintOverflow => "varint overflow"
  | .varintTruncated => "incomplete varint"
  | .postingCount claimed available => s!"posting list claims {claimed} entries in {available} bytes"
  | .postingIdTruncated => "posting id runs past the end of the list"
  | .postingTrailing left => s!"{left} trailing bytes after posting list"
  | .headerTruncated found => s!"index header needs 4096 bytes, found {found}"
  | .headerMagic => "not an index file (bad magic)"
  | .headerVersion version => s!"unsupported index format version {version}"
  | .headerChecksum => "index header checksum mismatch"
  | .storeTruncated length => s!"block store of {length} bytes is shorter than its 2048-byte header"
  | .tableOutside bucket start stop =>
      s!"bucket {bucket} table [{start}, {stop}) lies outside the store"
  | .recordOutside position => s!"record position {position} lies outside the data section"
  | .recordTruncated position => s!"record at {position} runs past the data section"
  | .recordUnaddressable => "record position beyond 32-bit range"
  | .partTooLong part length => s!"{part.name} of {length} bytes is too large for a block store"
  | .offsetTooLarge offset => s!"offset {offset} exceeds the 32-bit address space"
  | .dumpUnclosed => "dump ended without its closing empty line"
  | .dumpRecord number fault => s!"record {number}: {fault.message}"
  | .indexTruncated size => s!"index file of {size} bytes is shorter than its header"
  | .indexLength described size =>
      s!"index header describes {described} bytes but the file has {size}"
  | .analyzerMismatch => "index was built with different analyzer settings"

inductive CorruptionFault
  | text (message : String)
  | documentMissing (id : Bytes)
  deriving DecidableEq

def CorruptionFault.message : CorruptionFault → String
  | .text m => m
  | .documentMissing id =>
      s!"document {Text.quoted (Utf8.lossy id)} is in the word store but not in the document store"

inductive ArgumentFault
  | text (message : String)
  | document (line : Nat)
  | keyNotFound (key : String)
  | notFilePath (path : String)
  deriving DecidableEq

def ArgumentFault.message : ArgumentFault → String
  | .text m => m
  | .document line => s!"document on line {line}"
  | .keyNotFound key => "key not found: " ++ key
  | .notFilePath path => "not a file path: " ++ path

/-- The cause of a failure, by the part of the program that is at fault. -/
inductive Error
  | io (fault : IoFault)
  | index (fault : IndexFault)
  | analysis (message : String)
  | storage (fault : StorageFault)
  | format (fault : FormatFault)
  | corrupt (fault : CorruptionFault)
  | json
  | other (message : String)
  | argument (fault : ArgumentFault)
  | within (contexts : List String) (fault : IoFault)
  deriving DecidableEq

namespace Error

/-- The bytes of an index are at fault, not the caller or the system. -/
def isCorruption : Error → Bool
  | .format _ | .corrupt _ => true
  | _ => false

/-- The contexts of a failure stand before it, from the outermost inward. -/
def message : Error → String
  | .io fault => "I/O error: " ++ fault.message
  | .index fault => "Index error: " ++ fault.message
  | .analysis m => "Analysis error: " ++ m
  | .storage fault => "Storage error: " ++ fault.message
  | .format fault => "Format error: " ++ fault.message
  | .corrupt fault => "Corrupt index: " ++ fault.message
  | .json => "JSON error: malformed document"
  | .other m => "Error: " ++ m
  | .argument fault => "Error: Invalid argument: " ++ fault.message
  | .within contexts fault => contexts.foldr (fun c m => s!"{c}: {m}") fault.message

end Error

end Concordance

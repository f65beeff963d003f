import CommitCloud.Foundation.Bytes

/-!
# Shared constants

The identifiers and lengths that client and server agree on (`common/src/lib.rs`).
-/

namespace CommitCloud

open Foundation

abbrev RepoId := String
abbrev CommitId := Bytes
abbrev TreeId := Bytes
abbrev FileId := Bytes
abbrev OpId := Bytes
abbrev ViewId := Bytes

def commitIdLength : Nat := 20

def changeIdLength : Nat := 16

def operationIdLength : Nat := 16

def viewIdLength : Nat := 16

def rootCommitIdBytes : Bytes := List.replicate commitIdLength 0

def rootChangeIdBytes : Bytes := List.replicate changeIdLength 0

def rootOperationIdBytes : Bytes := List.replicate operationIdLength 0

def rootViewIdBytes : Bytes := List.replicate viewIdLength 0

def emptyTreeIdBytes : Bytes :=
  [0x4b, 0x82, 0x5d, 0xc6, 0x42, 0xcb, 0x6e, 0xb9, 0xa0, 0x60, 0xe5,
    0x4b, 0xf8, 0xd6, 0x92, 0x88, 0xfb, 0xee, 0x49, 0x04]

end CommitCloud

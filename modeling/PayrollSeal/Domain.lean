import PayrollSeal.Blake3.Tree

/-!
# Domains

Every hash names its purpose: the message that is hashed is a label, a zero byte and the payload.
No label holds a zero byte, so a message determines both its domain and its payload.
-/

namespace PayrollSeal

/-- The purpose of a hash. -/
inductive Domain where
  | document
  | inputs
  | leaf
  | merkleNode
  | identifier
deriving DecidableEq

namespace Domain

/-- The byte between a label and a payload. -/
def separator : UInt8 := 0

/-- Every domain. -/
def all : List Domain := [document, inputs, leaf, merkleNode, identifier]

/-- The text in front of every payload of a domain. -/
def label : Domain → String
  | document => "PNW::DOC"
  | inputs => "PNW::INPUTS"
  | leaf => "PNW::LEAF"
  | merkleNode => "PNW::MERKLE_NODE"
  | identifier => "PNW::TOKEN_ID"

/-- The bytes hashed for a payload. -/
def message (domain : Domain) (payload : Bytes) : Bytes :=
  Bytes.ofText domain.label ++ separator :: payload

/-- The hash of a payload. -/
def hash (domain : Domain) (payload : Bytes) : Digest :=
  Blake3.hash (domain.message payload)

/-- The bytes hashed for a payload that comes in parts: label, separator and parts in turn. -/
def messageOfParts (domain : Domain) (parts : List Bytes) : Bytes :=
  (Bytes.ofText domain.label :: [separator] :: parts).flatten

/-- The hash of a payload that comes in parts. -/
def hashParts (domain : Domain) (parts : List Bytes) : Digest :=
  Blake3.hash (domain.messageOfParts parts)

end Domain

end PayrollSeal

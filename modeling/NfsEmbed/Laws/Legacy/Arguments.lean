import NfsEmbed.Laws.Legacy.Xdr

/-!
# What a client sends to the handlers of the pre-1.0 implementation

The arguments of the procedures that name objects, change them or list them, as RFC 1813 spells them.
-/

namespace NfsEmbed.Legacy

open Lib Rpc

/-- `createhow3`. -/
inductive Createhow3 where
  | unchecked (attributes : Sattr3)
  | guarded (attributes : Sattr3)
  | exclusive (verf : Createverf3)
deriving DecidableEq, Repr

def Createhow3.spell : Createhow3 → Bytes
  | unchecked attributes => LawfulXdr.spell Createmode3.unchecked ++ LawfulXdr.spell attributes
  | guarded attributes => LawfulXdr.spell Createmode3.guarded ++ LawfulXdr.spell attributes
  | exclusive verf => LawfulXdr.spell Createmode3.exclusive ++ LawfulXdr.spell verf

inductive Arguments where
  | setattr (args : SETATTR3args)
  | lookup (what : Diropargs3)
  | readlink (handle : NfsFh3)
  | read (args : READ3args)
  | write (args : WRITE3args)
  | create (target : Diropargs3) (how : Createhow3)
  | mkdir (args : MKDIR3args)
  | symlink (args : SYMLINK3args)
  | remove (object : Diropargs3)
  | rmdir (object : Diropargs3)
  | rename (fromArgs toArgs : Diropargs3)
  | readdir (args : READDIR3args)
  | readdirplus (args : READDIRPLUS3args)
deriving DecidableEq, Repr

namespace Arguments

def procedure : Arguments → UInt32
  | setattr _ => 2
  | lookup _ => 3
  | readlink _ => 5
  | read _ => 6
  | write _ => 7
  | create _ _ => 8
  | mkdir _ => 9
  | symlink _ => 10
  | remove _ => 12
  | rmdir _ => 13
  | rename _ _ => 14
  | readdir _ => 16
  | readdirplus _ => 17

def spell : Arguments → Bytes
  | setattr args => LawfulXdr.spell args
  | lookup what | remove what | rmdir what => LawfulXdr.spell what
  | readlink handle => LawfulXdr.spell handle
  | read args => LawfulXdr.spell args
  | write args => LawfulXdr.spell args
  | create target how => LawfulXdr.spell target ++ how.spell
  | mkdir args => LawfulXdr.spell args
  | symlink args => LawfulXdr.spell args
  | rename fromArgs toArgs => LawfulXdr.spell fromArgs ++ LawfulXdr.spell toArgs
  | readdir args => LawfulXdr.spell args
  | readdirplus args => LawfulXdr.spell args

/-- The lengths of handles, names and data can be spelled. -/
def WellFormed : Arguments → Prop
  | setattr args => Fits (2 ^ 32) args
  | lookup what | remove what | rmdir what => Fits (2 ^ 32) what
  | readlink handle => Fits (2 ^ 32) handle
  | read args => Fits (2 ^ 32) args
  | write args => Fits (2 ^ 32) args
  | create target _ => Fits (2 ^ 32) target
  | mkdir args => Fits (2 ^ 32) args
  | symlink args => Fits (2 ^ 32) args
  | rename fromArgs toArgs => Fits (2 ^ 32) fromArgs ∧ Fits (2 ^ 32) toArgs
  | readdir args => Fits (2 ^ 32) args
  | readdirplus args => Fits (2 ^ 32) args

end Arguments

end NfsEmbed.Legacy

import AsioCoroFrame.Core.Text
import Mathlib.Data.List.TakeWhile

/-!
# Replies and exceptions of the cluster library

The vocabulary shared by the command layer, the connection pool and the
handlers: what Redis answers, what the library raises, and what a command is
called with.
-/

namespace AsioCoroFrame.Cluster

/-- A `redisReply`, by its type tag; `NULL` replies are `none` where they can occur. -/
inductive RedisReply where
  /-- `REDIS_REPLY_INTEGER`. -/
  | integer (i : Int)
  /-- `REDIS_REPLY_STRING`. -/
  | string (s : Bytes)
  /-- `REDIS_REPLY_STATUS`. -/
  | status (s : Bytes)
  /-- `REDIS_REPLY_NIL`. -/
  | nil
  /-- `REDIS_REPLY_ERROR`. -/
  | error (s : Bytes)
  /-- `REDIS_REPLY_ARRAY`. -/
  | array
  deriving DecidableEq, Repr

/-- The member `reply->str`; only textual replies have one. -/
def RedisReply.str : RedisReply → Option Bytes
  | .string s | .status s | .error s => some s
  | .integer _ | .nil | .array => none

/-- The exceptions of the cluster library, and those of the standard library it lets through. -/
inductive ClusterException where
  /-- `ConnectionFailedException`, with the text of `strerror(errno)`. -/
  | connectionFailed (reason : Bytes)
  | disconnected
  | nodeSearch
  | notInitialized
  | clusterDown
  /-- `LogicError(reason)`. -/
  | logicError (reason : Bytes)
  | invalidArgument
  | std (e : StdException)
  deriving DecidableEq, Repr

/-- The text reported by `e.what()`. -/
def ClusterException.what : ClusterException → Bytes
  | .connectionFailed r => ascii "cluster connect failed: " ++ r
  | .disconnected => ascii "cluster host disconnected"
  | .nodeSearch => ascii "node not found in cluster"
  | .notInitialized => ascii "cluster have not been properly initialized"
  | .clusterDown => ascii "cluster is going down"
  | .logicError r => r
  | .invalidArgument => ascii "cluster invalid argument"
  | .std e => e.what

/-- The part of a string that survives `c_str()`: the bytes before the first NUL. -/
def cString (s : Bytes) : Bytes := s.takeWhile (· ≠ 0)

/-- Bytes other than NUL in front of a string survive. -/
theorem cString_append {a : Bytes} (b : Bytes) (h : (0 : Byte) ∉ a) :
    cString (a ++ b) = a ++ cString b :=
  List.takeWhile_append_of_pos fun x hx => by
    have : x ≠ 0 := fun he => h (he ▸ hx)
    simpa using this

/-- What survives survives again. -/
theorem cString_prefix (s : Bytes) : cString s <+: s := List.takeWhile_prefix _

/-- A text without zero byte is a C string as it is. -/
theorem cString_eq_self {s : Bytes} : cString s = s ↔ (0 : Byte) ∉ s := by
  rw [cString, List.takeWhile_eq_self_iff]
  constructor
  · intro h hm
    simpa using h 0 hm
  · intro h b hb
    simpa using ne_of_mem_of_not_mem hb h

@[simp] theorem cString_cString (s : Bytes) : cString (cString s) = cString s :=
  List.takeWhile_idem ..

/-- The arguments of `HiredisCommand::Command(cluster_p, key, format)`. -/
structure Command where
  /-- The key that selects the slot. -/
  key : Bytes
  /-- The format handed to `redisvFormatCommand`. -/
  format : Bytes
  deriving DecidableEq, Repr

/-- What a command yields: a reply, possibly `NULL`, or an exception. -/
abbrev CommandResult := Except ClusterException (Option RedisReply)

end AsioCoroFrame.Cluster

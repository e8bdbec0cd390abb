import Zdb.Command

/-! `raft::Log`: the stored entries and the snapshot point they follow. Look-ups
scan for the first entry with a given index, as `std::find_if` does; nothing in
the class itself makes the indices consecutive. -/

namespace Zdb.Raft

structure LogEntry where
  index : ℕ
  term : ℕ
  command : Command
  deriving DecidableEq, Repr

def LogEntry.equal (a b : LogEntry) : Bool :=
  a.index == b.index && a.term == b.term && a.command.equal b.command

structure Log where
  entries : List LogEntry := []
  lastIncludedIndex : ℕ := 0
  lastIncludedTerm : ℕ := 0
  deriving DecidableEq, Repr

namespace Log

def ofEntries (entries : List LogEntry) : Log := { entries }

def append (log : Log) (entry : LogEntry) : Log :=
  { log with entries := log.entries ++ [entry] }

/-- The offset of the first entry with the index, and the entry there. -/
def atIter : List LogEntry → ℕ → Option (ℕ × LogEntry)
  | [], _ => none
  | e :: rest, index =>
      if e.index == index then some (0, e)
      else (atIter rest index).map fun found => (found.1 + 1, found.2)

/-- The loop of `Log::merge` from its current position in the other log on. -/
def mergeEntries (entries : List LogEntry) : List LogEntry → List LogEntry
  | [] => entries
  | e :: rest => match atIter entries e.index with
      | none => entries ++ e :: rest
      | some (v, stored) =>
          if stored.equal e then mergeEntries entries rest else entries.take v ++ e :: rest

def merge (log other : Log) : Log :=
  { log with entries := mergeEntries log.entries other.entries }

def lastIndex (log : Log) : ℕ :=
  match log.entries.getLast? with
  | none => log.lastIncludedIndex
  | some e => e.index

def lastTerm (log : Log) : ℕ :=
  match log.entries.getLast? with
  | none => log.lastIncludedTerm
  | some e => e.term

def firstIndex (log : Log) : ℕ :=
  match log.entries.head? with
  | none => 0
  | some e => e.index

def termFirstIndex (log : Log) (term : ℕ) : ℕ :=
  match log.entries.find? (fun e => e.term == term) with
  | none => 0
  | some e => e.index

def termLastIndex (log : Log) (term : ℕ) : ℕ :=
  match log.entries.reverse.find? (fun e => e.term == term) with
  | none => 0
  | some e => e.index

def suffix (log : Log) (start : ℕ) : Log :=
  match atIter log.entries start with
  | none => {}
  | some (i, _) => ofEntries (log.entries.drop i)

def trimPrefix (log : Log) (index term : ℕ) : Log where
  lastIncludedIndex := index
  lastIncludedTerm := term
  entries := match atIter log.entries index with
    | none => []
    | some (i, _) => log.entries.drop (i + 1)

def setLastIncluded (log : Log) (index term : ℕ) : Log :=
  { log with lastIncludedIndex := index, lastIncludedTerm := term }

def atIndex (log : Log) (index : ℕ) : Option LogEntry :=
  (atIter log.entries index).map Prod.snd

def clear (log : Log) : Log := { log with entries := [] }

def data (log : Log) : List LogEntry := log.entries

end Log

end Zdb.Raft

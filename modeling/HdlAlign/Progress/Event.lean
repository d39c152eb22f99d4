import HdlAlign.Text.Basic

/-! Reports on the way of each file through a run. -/

namespace HdlAlign.Progress

inductive Stage where
  | load
  | align
  | verify
  | write
  | unknown (name : Text)
  deriving DecidableEq

namespace Stage

def name : Stage → Text
  | load => "load"
  | align => "align"
  | verify => "verify"
  | write => "write"
  | unknown name => name

def ofName (text : Text) : Stage :=
  ([load, align, verify, write].find? fun stage => stage.name = text).getD (unknown text)

end Stage

inductive Status where
  | queued
  | working
  | done
  | failed
  | unknown (name : Text)
  deriving DecidableEq

namespace Status

def name : Status → Text
  | queued => "queued"
  | working => "working"
  | done => "done"
  | failed => "error"
  | unknown name => name

def ofName (text : Text) : Status :=
  ([queued, working, done, failed].find? fun status => status.name = text).getD (unknown text)

end Status

/-- A report on a file, or on the whole run if no file is named. -/
structure Event where
  file : Text
  stage : Stage
  status : Status
  error : Option Text := none
  deriving DecidableEq

end HdlAlign.Progress

import Goverse.GoString

/-! The access rules of gates and nodes. A validator holds compiled rules; a rule's patterns
are literal or regular expressions, and an expression is the set of strings it matches. -/
namespace Goverse.AccessControl

inductive AccessLevel where
  | reject | internal | external | allow
  deriving DecidableEq, Repr

/-- `ALLOW` or `EXTERNAL`: what a client may do through a gate. -/
def AccessLevel.clients : AccessLevel → Bool
  | .allow | .external => true
  | .reject | .internal => false

/-- `ALLOW` or `INTERNAL`: what a node may do. -/
def AccessLevel.nodes : AccessLevel → Bool
  | .allow | .internal => true
  | .reject | .external => false

inductive PatternMatcher where
  | matchAll
  | literal (pattern : GoString)
  | regexp (accepted : GoString → Bool)

/-- `Match` -/
def PatternMatcher.matchString : PatternMatcher → GoString → Bool
  | .matchAll, _ => true
  | .literal pattern, s => pattern == s
  | .regexp accepted, s => accepted s

structure CompiledRule where
  typeMatcher : PatternMatcher
  idMatcher : PatternMatcher
  methodMatcher : PatternMatcher
  access : AccessLevel

structure AccessValidator where
  rules : List CompiledRule

inductive LifecycleOperation where
  | create | delete | all
  deriving DecidableEq, Repr

structure CompiledLifecycleRule where
  typeMatcher : PatternMatcher
  idMatcher : PatternMatcher
  lifecycle : LifecycleOperation
  access : AccessLevel

structure LifecycleValidator where
  rules : List CompiledLifecycleRule

inductive AccessError where
  | access (objectType objectID method : GoString)
  | create (objectType objectID : GoString)
  | delete (objectType objectID : GoString)
  deriving DecidableEq, Repr

/-- What the checks have in common: a permitted level, or the error. -/
def check (permitted : Bool) (error : AccessError) : Except AccessError Unit :=
  if permitted then .ok () else .error error

namespace AccessValidator

variable (v : AccessValidator) (objectType objectID method : GoString)

/-- The level of the first rule that matches; nothing is permitted without one. -/
def findAccess : AccessLevel :=
  ((v.rules.find? fun rule => rule.typeMatcher.matchString objectType &&
    rule.idMatcher.matchString objectID && rule.methodMatcher.matchString method).map
      CompiledRule.access).getD .reject

def checkClientAccess : Except AccessError Unit :=
  check (v.findAccess objectType objectID method).clients (.access objectType objectID method)

def checkNodeAccess : Except AccessError Unit :=
  check (v.findAccess objectType objectID method).nodes (.access objectType objectID method)

end AccessValidator

namespace LifecycleValidator

variable (v : LifecycleValidator) (objectType objectID : GoString)

/-- Without a matching rule everyone may create and only nodes may delete. -/
def findAccess (operation : LifecycleOperation) : AccessLevel :=
  ((v.rules.find? fun rule => (rule.lifecycle == operation || rule.lifecycle == .all) &&
    rule.typeMatcher.matchString objectType && rule.idMatcher.matchString objectID).map
      CompiledLifecycleRule.access).getD (if operation = .create then .allow else .internal)

def checkClientCreate : Except AccessError Unit :=
  check (v.findAccess objectType objectID .create).clients (.create objectType objectID)

def checkNodeCreate : Except AccessError Unit :=
  check (v.findAccess objectType objectID .create).nodes (.create objectType objectID)

def checkClientDelete : Except AccessError Unit :=
  check (v.findAccess objectType objectID .delete).clients (.delete objectType objectID)

def checkNodeDelete : Except AccessError Unit :=
  check (v.findAccess objectType objectID .delete).nodes (.delete objectType objectID)

end LifecycleValidator

end Goverse.AccessControl

/-! # Log records

A record is a message of one part of the program at some level. Parts have names in
which `::` leads from a whole to its parts, so that a filter can name either.
-/

namespace Arbor.Log

inductive Level where
  | error
  | warn
  | info
  | debug
  | trace
  deriving DecidableEq, Repr

/-- The place of a level among all levels; less matter has a higher place. -/
def Level.rank : Level → Nat
  | error => 1
  | warn => 2
  | info => 3
  | debug => 4
  | trace => 5

def Level.name : Level → String
  | error => "ERROR"
  | warn => "WARN"
  | info => "INFO"
  | debug => "DEBUG"
  | trace => "TRACE"

/-- A part of the program that writes records. -/
inductive Topic where
  | program
  | logging
  | config
  | generation
  | index
  | growth
  | turtle
  | snapshot
  deriving DecidableEq, Repr

def Topic.name : Topic → String
  | program => "foliage"
  | logging => "foliage::logging"
  | config => "foliage::config"
  | generation => "foliage::generate"
  | index => "foliage::grammar::index"
  | growth => "foliage::grammar::production"
  | turtle => "foliage::turtle::interpreter"
  | snapshot => "foliage::snapshot"

structure Record where
  level : Level
  topic : Topic
  message : String
  deriving DecidableEq, Repr

end Arbor.Log

/-!
# Instances for numbers

Powers, and sums of lists of numbers, are those of the core library in every module. Elsewhere there
are other instances for both, by way of monoids; they are equal to these, but which of them a module
takes would depend on what it imports.
-/

attribute [instance (high)] instPowNat Zero.ofOfNat0

-- for exponents that are numerals the instance is chosen by default, not by search
attribute [default_instance 20000] instPowNat

import ObjectPile.Pile.Delete
import ObjectPile.Proofs.Adjoint
import ObjectPile.Proofs.Building
import ObjectPile.Proofs.Deposits
import ObjectPile.Proofs.Isolation
import ObjectPile.Proofs.Loading
import ObjectPile.Proofs.Paths
import ObjectPile.Proofs.Purging
import ObjectPile.Proofs.Registries
import ObjectPile.Proofs.Spellings
import ObjectPile.Proofs.Updates
import ObjectPile.Registry
import ObjectPile.Segment.Header
